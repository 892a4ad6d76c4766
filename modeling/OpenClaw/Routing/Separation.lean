import OpenClaw.Lib.Segments
import OpenClaw.Routing.SessionKey

/-!
# Session keys separate conversations

The parts of a key stand between colons, and only the peer id may hold colons of its own.
Keys of one shape can be read back. Keys of two shapes meet where an id reads like the end
of the other shape: a direct chat on an account that is named `group` or `channel` next to a
group id that begins with `direct:`, or a group on a channel that is named `direct`.
-/

namespace OpenClaw

open List Segments

/-! ## Lower case and white space -/

/-- What `String.prototype.toLowerCase` is documented to do, as far as keys depend on it. -/
structure LowerCases (toLowerCase : Str → Str) : Prop where
  ascii : ∀ s : Str, (∀ c ∈ s, c.toNat < 128) → toLowerCase s = s.map Char.toLower
  idempotent : ∀ s, toLowerCase (toLowerCase s) = toLowerCase s
  nonempty : ∀ s, s ≠ [] → toLowerCase s ≠ []
  trimmed : ∀ s, trim s = s → trim (toLowerCase s) = toLowerCase s
  colon : ∀ s, ':' ∈ toLowerCase s → ':' ∈ s

section NormalForms

variable {host : RouteHost} (hlower : LowerCases host.toLowerCase)

theorem normalizeToken_trim (s : Str) : normalizeToken host (trim s) = normalizeToken host s := by
  unfold normalizeToken normalizeLowercaseStringOrEmpty
  rw [trim_trim]

include hlower

theorem normalizeToken_eq_nil_iff (s : Str) : normalizeToken host s = [] ↔ trim s = [] := by
  unfold normalizeToken normalizeLowercaseStringOrEmpty
  split_ifs with hblank
  · exact iff_of_true rfl hblank
  · exact iff_of_false (hlower.nonempty _ hblank) hblank

theorem normalizeToken_idem (s : Str) :
    normalizeToken host (normalizeToken host s) = normalizeToken host s := by
  by_cases hblank : trim s = []
  · have hnil := (normalizeToken_eq_nil_iff hlower s).mpr hblank
    rw [hnil]
    rfl
  · have htoken : normalizeToken host s = host.toLowerCase (trim s) := if_neg hblank
    have htrim : trim (host.toLowerCase (trim s)) = host.toLowerCase (trim s) :=
      hlower.trimmed _ (trim_trim s)
    have hne := hlower.nonempty _ hblank
    rw [htoken]
    show (if trim (host.toLowerCase (trim s)) = [] then [] else _) = _
    rw [htrim, if_neg hne, hlower.idempotent]

theorem normalizeToken_unknown : normalizeToken host "unknown".toList = "unknown".toList := by
  have hchars : "unknown".toList.all (fun c => decide (c.toNat < 128)) = true := by decide
  have hascii : host.toLowerCase "unknown".toList = "unknown".toList.map Char.toLower :=
    hlower.ascii _ fun c hc => by simpa using all_eq_true.mp hchars c hc
  show (if trim "unknown".toList = [] then [] else host.toLowerCase (trim "unknown".toList)) = _
  rw [show trim "unknown".toList = "unknown".toList by decide, hascii]
  decide

theorem colon_notMem_normalizeToken {s : Str} (hs : ':' ∉ s) : ':' ∉ normalizeToken host s := by
  unfold normalizeToken normalizeLowercaseStringOrEmpty
  split_ifs
  · exact not_mem_nil
  · exact fun hmem => hs (trim_subset s (hlower.colon _ hmem))

omit hlower in
theorem isAccountIdChar_replaceInvalidChars (inRun : Bool) (s : Str) :
    ∀ c ∈ replaceInvalidChars inRun s, isAccountIdChar c = true := by
  induction s generalizing inRun with
  | nil => exact fun c hc => absurd hc not_mem_nil
  | cons first rest ih =>
    intro c hc
    unfold replaceInvalidChars at hc
    split_ifs at hc with hvalid hrun
    · rcases mem_cons.mp hc with rfl | hrest
      · exact hvalid
      · exact ih false c hrest
    · exact ih true c hc
    · rcases mem_cons.mp hc with rfl | hrest
      · decide
      · exact ih true c hrest

omit hlower in
theorem ascii_of_isAccountIdChar_toLower {c : Char} (h : isAccountIdChar c.toLower = true) :
    c.toNat < 128 := by
  have hascii : ∀ d : Char, isAccountIdChar d = true → d.toNat < 128 := by
    intro d hd
    unfold isAccountIdChar at hd
    simp only [Bool.or_eq_true, Bool.and_eq_true, decide_eq_true_eq] at hd
    have hle : ∀ e : Char, d ≤ e → e.toNat < 128 → d.toNat < 128 :=
      fun e hde he => lt_of_le_of_lt (Char.le_def.mp hde) he
    rcases hd with ((hd | hd) | rfl) | rfl
    · exact hle 'z' hd.2 (by decide)
    · exact hle '9' hd.2 (by decide)
    · decide
    · decide
  unfold Char.toLower at h
  split_ifs at h with hupper
  · have hle : c.val.toNat ≤ 'Z'.val.toNat := hupper.2
    exact lt_of_le_of_lt hle (by decide)
  · exact hascii c h

theorem isAccountIdChar_canonicalizeAccountId (value : Str) :
    ∀ c ∈ canonicalizeAccountId host value, isAccountIdChar c = true := by
  intro c hc
  unfold canonicalizeAccountId at hc
  dsimp only at hc
  split_ifs at hc with hvalid
  · have hchars : ∀ d ∈ value, isAccountIdChar d.toLower = true := by
      cases value with
      | nil => exact fun d hd => absurd hd not_mem_nil
      | cons first rest =>
        unfold isValidAccountId at hvalid
        simp only [Bool.and_eq_true, all_eq_true] at hvalid
        intro d hd
        rcases mem_cons.mp hd with rfl | hrest
        · exact hvalid.1.1.1.1
        · exact hvalid.2 d hrest
    unfold normalizeLowercaseStringOrEmpty at hc
    split_ifs at hc
    · exact absurd hc not_mem_nil
    · rw [hlower.ascii _ fun d hd => ascii_of_isAccountIdChar_toLower
        (hchars d (trim_subset value hd))] at hc
      obtain ⟨d, hd, rfl⟩ := mem_map.mp hc
      exact hchars d (trim_subset value hd)
  · have htake := mem_of_mem_take hc
    have hend := ( rdropWhile_prefix _ _).subset htake
    have hstart := (dropWhile_suffix _).subset hend
    exact isAccountIdChar_replaceInvalidChars false _ c hstart

theorem colon_notMem_canonicalizeAccountId (value : Str) :
    ':' ∉ canonicalizeAccountId host value := by
  intro hmem
  have hchar := isAccountIdChar_canonicalizeAccountId hlower value ':' hmem
  exact nomatch hchar

theorem isAccountIdChar_normalizeAccountId (value : Option Str) :
    ∀ c ∈ normalizeAccountId host value, isAccountIdChar c = true := by
  have hdefault : ∀ c ∈ "default".toList, isAccountIdChar c = true :=
    all_eq_true.mp (by decide)
  unfold normalizeAccountId normalizeOptionalAccountId
  cases normalizeNonEmptyString value with
  | none => exact hdefault
  | some trimmed =>
    rw [Option.bind_some]
    dsimp only
    split_ifs
    · exact hdefault
    · exact isAccountIdChar_canonicalizeAccountId hlower trimmed

theorem colon_notMem_normalizeAccountId (value : Option Str) :
    ':' ∉ normalizeAccountId host value := by
  intro hmem
  have hchar := isAccountIdChar_normalizeAccountId hlower value ':' hmem
  exact nomatch hchar

theorem colon_notMem_normalizeAgentId (value : Option Str) : ':' ∉ normalizeAgentId host value := by
  unfold normalizeAgentId
  dsimp only
  have hcanonical := colon_notMem_canonicalizeAccountId hlower (trim (value.getD []))
  split_ifs with hblank hvalid
  · decide
  · unfold canonicalizeAccountId at hcanonical
    dsimp only at hcanonical
    rw [if_pos hvalid] at hcanonical
    exact hcanonical
  · unfold orElse
    split_ifs
    · decide
    · exact hcanonical

end NormalForms

/-! ## Parts of a key -/

structure InboundMessage where
  agentId : Str
  channel : Str
  accountId : Option Str
  peer : RoutePeer

variable (dmScope : DmScope)

/-- The key of a message without identity links. -/
def InboundMessage.sessionKey (host : RouteHost) (dmScope : DmScope) (m : InboundMessage) : Str :=
  buildAgentSessionKey host m.agentId m.channel m.accountId (some m.peer) (some dmScope) none

structure SessionParts where
  agent : Str
  channel : Str
  account : Str
  kind : ChatType
  peer : Str

section Parts

variable {host : RouteHost} (hlower : LowerCases host.toLowerCase)
include hlower

/-- A direct peer is trimmed, defaulted and lower-cased. -/
theorem normalizeToken_peer (id : Str) : normalizeToken host (orElse (trim id) "unknown".toList) =
      orElse (normalizeToken host id) "unknown".toList := by
  unfold orElse
  by_cases hblank : trim id = []
  · rw [if_pos hblank, if_pos ((normalizeToken_eq_nil_iff hlower id).mpr hblank),
      normalizeToken_unknown hlower]
  · rw [if_neg hblank, if_neg fun h => hblank ((normalizeToken_eq_nil_iff hlower id).mp h),
      normalizeToken_trim]

omit hlower in
theorem orElse_normalizeToken_ne_nil (id : Str) :
    orElse (normalizeToken host id) "unknown".toList ≠ [] := by
  unfold orElse
  split_ifs with hblank
  · decide
  · exact hblank

theorem orElse_normalizeToken_orElse (value : Str) :
    orElse (normalizeToken host (orElse (normalizeToken host value) "unknown".toList))
      "unknown".toList = orElse (normalizeToken host value) "unknown".toList := by
  have htoken : normalizeToken host (orElse (normalizeToken host value) "unknown".toList) =
      orElse (normalizeToken host value) "unknown".toList := by
    by_cases hblank : normalizeToken host value = []
    · rw [hblank]
      exact normalizeToken_unknown hlower
    · have hself : orElse (normalizeToken host value) "unknown".toList = normalizeToken host value :=
        if_neg hblank
      rw [hself, normalizeToken_idem hlower]
  rw [htoken]
  exact if_neg (orElse_normalizeToken_ne_nil value)

end Parts

/-- The parts of a message as they stand in keys. -/
def InboundMessage.parts (host : RouteHost) (m : InboundMessage) : SessionParts where
  agent := normalizeAgentId host (some m.agentId)
  channel := orElse (normalizeToken host m.channel) "unknown".toList
  account := normalizeAccountId host m.accountId
  kind := m.peer.kind
  peer := orElse (normalizeToken host m.peer.id) "unknown".toList

/-- What stands before the peer. -/
def SessionParts.segments (p : SessionParts) : List Str :=
  "agent".toList :: p.agent ::
    if p.kind = .direct then
      match dmScope with
      | .perAccountChannelPeer => [p.channel, p.account, "direct".toList]
      | .perChannelPeer => [p.channel, "direct".toList]
      | .perPeer => ["direct".toList]
      | .main => []
    else [p.channel, p.kind.text]

theorem sessionKey_eq_text {host : RouteHost} (hlower : LowerCases host.toLowerCase)
    {dmScope : DmScope} (hscope : dmScope ≠ .main) (m : InboundMessage) :
    m.sessionKey host dmScope =
      Segments.text ':' ((m.parts host).segments dmScope) (m.parts host).peer := by
  have hpeer : normalizeToken host (orElse (trim m.peer.id) "unknown".toList) =
      (m.parts host).peer := normalizeToken_peer hlower m.peer.id
  have hne : (m.parts host).peer ≠ [] := orElse_normalizeToken_ne_nil m.peer.id
  have hchannel : orElse (normalizeToken host (orElse (normalizeToken host m.channel)
      "unknown".toList)) "unknown".toList = (m.parts host).channel :=
    orElse_normalizeToken_orElse hlower m.channel
  have hdirect : normalizeToken host (((none : Option Str)).getD
      (trim (orElse (trim m.peer.id) "unknown".toList))) = (m.parts host).peer := by
    rw [Option.getD_none, normalizeToken_trim, hpeer]
  have hother : orElse (normalizeToken host (orElse (trim m.peer.id) "unknown".toList))
      "unknown".toList = (m.parts host).peer := by
    rw [hpeer]
    exact if_neg hne
  have hlinked : ∀ channel peerId, (if dmScope = .main then none
      else resolveLinkedPeerId host none channel peerId) = none := by
    intro channel peerId
    rw [if_neg hscope]
    rfl
  unfold InboundMessage.sessionKey buildAgentSessionKey buildAgentPeerSessionKey
  unfold SessionParts.segments
  have hkind : (m.parts host).kind = m.peer.kind := rfl
  rw [hkind]
  simp only [Option.map_some, Option.getD_some]
  cases m.peer.kind with
  | direct =>
    dsimp only
    rw [hlinked, hdirect]
    unfold directPeerKey
    rw [hchannel, if_pos rfl]
    cases dmScope with
    | main => exact absurd rfl hscope
    | perPeer =>
      simp [hne, Segments.text]
      rfl
    | perChannelPeer =>
      simp [hne, Segments.text]
      rfl
    | perAccountChannelPeer =>
      simp [hne, Segments.text]
      rfl
  | group =>
    dsimp only
    rw [hchannel, hother]
    simp [Segments.text]
    rfl
  | channel =>
    dsimp only
    rw [hchannel, hother]
    simp [Segments.text]
    rfl

/-! ## When two keys are equal -/

/-- The same conversation, as far as the scope of direct chats tells them apart. -/
structure SameSession (dmScope : DmScope) (p p' : SessionParts) : Prop where
  agent : p.agent = p'.agent
  kind : p.kind = p'.kind
  peer : p.peer = p'.peer
  channel : ¬ (p.kind = .direct ∧ dmScope = .perPeer) → p.channel = p'.channel
  account : p.kind = .direct → dmScope = .perAccountChannelPeer → p.account = p'.account

/-- A direct chat and a group or channel whose keys read alike. -/
def ReadsAlike (direct other : SessionParts) : Prop :=
  direct.kind = .direct ∧ other.kind ≠ .direct ∧ direct.agent = other.agent ∧
    match dmScope with
    | .perPeer => other.channel = "direct".toList ∧
        direct.peer = other.kind.text ++ ':' :: other.peer
    | .perAccountChannelPeer => direct.channel = other.channel ∧
        direct.account = other.kind.text ∧ other.peer = "direct".toList ++ ':' :: direct.peer
    | _ => False

structure SessionParts.ColonFree (p : SessionParts) : Prop where
  agent : ':' ∉ p.agent
  channel : ':' ∉ p.channel
  account : ':' ∉ p.account

theorem colonFree_parts {host : RouteHost} (hlower : LowerCases host.toLowerCase)
    {m : InboundMessage} (hm : ':' ∉ m.channel) : (m.parts host).ColonFree where
  agent := colon_notMem_normalizeAgentId hlower _
  channel := by
    show ':' ∉ orElse (normalizeToken host m.channel) "unknown".toList
    unfold orElse
    split_ifs
    · decide
    · exact colon_notMem_normalizeToken hlower hm
  account := colon_notMem_normalizeAccountId hlower _

theorem SessionParts.ColonFree.segments {p : SessionParts} (h : p.ColonFree) (dmScope : DmScope) :
    ∀ segment ∈ p.segments dmScope, ':' ∉ segment := by
  unfold SessionParts.segments
  split_ifs
  · cases dmScope with
    | main => simp [h.agent]
    | perPeer => simp [h.agent]
    | perChannelPeer => simp [h.agent, h.channel]
    | perAccountChannelPeer => simp [h.agent, h.channel, h.account]
  · simp [h.agent, h.channel, colon_notMem_kind]

/-- The key of a message, from its parts. -/
def SessionParts.key (p : SessionParts) : Str :=
  Segments.text ':' (p.segments dmScope) p.peer

section

variable {dmScope : DmScope} {p p' : SessionParts}

theorem segments_direct (hkind : p.kind = .direct) : p.segments dmScope =
    "agent".toList :: p.agent ::
      match dmScope with
      | .perAccountChannelPeer => [p.channel, p.account, "direct".toList]
      | .perChannelPeer => [p.channel, "direct".toList]
      | .perPeer => ["direct".toList]
      | .main => [] := by
  unfold SessionParts.segments
  rw [if_pos hkind]

theorem segments_other (hkind : p.kind ≠ .direct) :
    p.segments dmScope = ["agent".toList, p.agent, p.channel, p.kind.text] := by
  unfold SessionParts.segments
  rw [if_neg hkind]

section

variable (h : p.ColonFree) (h' : p'.ColonFree) (hscope : dmScope ≠ .main)
include h h' hscope

/-- Keys of one kind of shape are read back. -/
theorem key_eq_iff_same (hkind : p.kind = .direct ↔ p'.kind = .direct) :
    p.key dmScope = p'.key dmScope ↔ SameSession dmScope p p' := by
  by_cases hdirect : p.kind = .direct
  · have hdirect' := hkind.mp hdirect
    have hlength : (p.segments dmScope).length = (p'.segments dmScope).length := by
      rw [segments_direct hdirect, segments_direct hdirect']
      cases dmScope <;> rfl
    show Segments.text ':' _ _ = Segments.text ':' _ _ ↔ _
    rw [text_inj (h.segments dmScope) (h'.segments dmScope) hlength,
      segments_direct hdirect, segments_direct hdirect']
    constructor
    · rintro ⟨hsegments, hpeer⟩
      refine ⟨?_, hdirect.trans hdirect'.symm, hpeer, ?_, ?_⟩
      · simp only [List.cons.injEq] at hsegments
        exact hsegments.2.1
      · intro hcounts
        cases dmScope with
        | main => exact absurd rfl hscope
        | perPeer => exact absurd ⟨hdirect, rfl⟩ hcounts
        | perChannelPeer => simp at hsegments; exact hsegments.2
        | perAccountChannelPeer => simp at hsegments; exact hsegments.2.1
      · rintro - rfl
        simp at hsegments
        exact hsegments.2.2
    · intro hsame
      refine ⟨?_, hsame.peer⟩
      cases dmScope with
      | main => exact absurd rfl hscope
      | perPeer => rw [hsame.agent]
      | perChannelPeer => rw [hsame.agent, hsame.channel (by simp)]
      | perAccountChannelPeer =>
        rw [hsame.agent, hsame.channel (by simp), hsame.account hdirect rfl]
  · have hdirect' := fun hp => hdirect (hkind.mpr hp)
    show Segments.text ':' _ _ = Segments.text ':' _ _ ↔ _
    rw [text_inj (h.segments dmScope) (h'.segments dmScope)
      (by rw [segments_other hdirect, segments_other hdirect']; rfl),
      segments_other hdirect, segments_other hdirect']
    constructor
    · rintro ⟨hsegments, hpeer⟩
      simp only [List.cons.injEq, and_true, true_and] at hsegments
      exact ⟨hsegments.1, kindText_injective hsegments.2.2, hpeer, fun _ => hsegments.2.1,
        fun hp => absurd hp hdirect⟩
    · intro hsame
      refine ⟨?_, hsame.peer⟩
      rw [hsame.agent, hsame.kind, hsame.channel fun hp => hdirect hp.1]

/-- The key of a direct chat is that of a group or channel only where it reads alike. -/
theorem key_eq_iff_readsAlike (hdirect : p.kind = .direct) (hother : p'.kind ≠ .direct) :
    p.key dmScope = p'.key dmScope ↔ ReadsAlike dmScope p p' := by
  have hfree := h.segments dmScope
  have hfree' := h'.segments dmScope
  have hkind : "direct".toList ≠ p'.kind.text :=
    fun heq => hother (kindText_injective (show ChatType.direct.text = _ from heq)).symm
  unfold ReadsAlike
  show Segments.text ':' _ _ = Segments.text ':' _ _ ↔ _
  rw [segments_direct hdirect] at hfree ⊢
  rw [segments_other hother] at hfree' ⊢
  cases dmScope with
  | main => exact absurd rfl hscope
  | perPeer =>
    rw [text_eq_iff hfree hfree' (by simp)]
    constructor
    · rintro ⟨zs, hzs, hpeer⟩
      simp only [cons_append, List.cons.injEq, true_and, nil_append] at hzs
      obtain ⟨hagent, hchannel, rfl⟩ := hzs
      exact ⟨hdirect, hother, hagent.symm, hchannel, hpeer⟩
    · rintro ⟨-, -, hagent, hchannel, hpeer⟩
      exact ⟨[p'.kind.text], by rw [hagent, hchannel]; rfl, hpeer⟩
  | perChannelPeer =>
    rw [text_inj hfree hfree' (by simp)]
    refine iff_of_false ?_ fun halike => halike.2.2.2
    rintro ⟨hsegments, -⟩
    simp only [List.cons.injEq, true_and, and_true] at hsegments
    exact hkind hsegments.2.2
  | perAccountChannelPeer =>
    rw [eq_comm, text_eq_iff hfree' hfree (by simp)]
    constructor
    · rintro ⟨zs, hzs, hpeer⟩
      simp only [cons_append, List.cons.injEq, true_and, nil_append] at hzs
      obtain ⟨hagent, hchannel, haccount, rfl⟩ := hzs
      exact ⟨hdirect, hother, hagent, hchannel, haccount, hpeer⟩
    · rintro ⟨-, -, hagent, hchannel, haccount, hpeer⟩
      exact ⟨["direct".toList], by rw [hagent, hchannel, haccount]; rfl, hpeer⟩

theorem key_eq_iff : p.key dmScope = p'.key dmScope ↔
      SameSession dmScope p p' ∨ ReadsAlike dmScope p p' ∨ ReadsAlike dmScope p' p := by
  by_cases hp : p.kind = .direct
  · by_cases hp' : p'.kind = .direct
    · rw [key_eq_iff_same h h' hscope (iff_of_true hp hp')]
      refine (or_iff_left ?_).symm
      rintro (halike | halike)
      · exact halike.2.1 hp'
      · exact halike.2.1 hp
    · rw [key_eq_iff_readsAlike h h' hscope hp hp']
      constructor
      · exact fun halike => .inr (.inl halike)
      · rintro (hsame | halike | halike)
        · exact absurd (hsame.kind.symm.trans hp) hp'
        · exact halike
        · exact absurd halike.1 hp'
  · by_cases hp' : p'.kind = .direct
    · rw [eq_comm, key_eq_iff_readsAlike h' h hscope hp' hp]
      constructor
      · exact fun halike => .inr (.inr halike)
      · rintro (hsame | halike | halike)
        · exact absurd (hsame.kind.trans hp') hp
        · exact absurd halike.1 hp
        · exact halike
    · rw [key_eq_iff_same h h' hscope (iff_of_false hp hp')]
      refine (or_iff_left ?_).symm
      rintro (halike | halike)
      · exact hp halike.1
      · exact hp' halike.1

end

end

/-! ## Separation -/

section

variable (host : RouteHost) (dmScope : DmScope) (m m' : InboundMessage)

/-- Messages with the same key are of the same conversation, up to white space and case. -/
def Separates : Prop :=
  m.sessionKey host dmScope = m'.sessionKey host dmScope →
    normalizeAgentId host (some m.agentId) = normalizeAgentId host (some m'.agentId) ∧
    m.peer.kind = m'.peer.kind ∧
    normalizeToken host m.peer.id = normalizeToken host m'.peer.id ∧
    (¬ (m.peer.kind = .direct ∧ m'.peer.kind = .direct ∧ dmScope = .perPeer) →
      normalizeToken host m.channel = normalizeToken host m'.channel) ∧
    (m.peer.kind = .direct → m'.peer.kind = .direct → dmScope = .perAccountChannelPeer →
      normalizeAccountId host m.accountId = normalizeAccountId host m'.accountId)

/-- Neither or both of two messages leave their peer blank, and their channel where it counts. A
blank reads `unknown`, which may be the name of the other. -/
def BlanksAgree : Prop :=
  (trim m.peer.id = [] ↔ trim m'.peer.id = []) ∧
    (¬ (m.peer.kind = .direct ∧ dmScope = .perPeer) → (trim m.channel = [] ↔ trim m'.channel = []))

end

section

variable {host : RouteHost} (hlower : LowerCases host.toLowerCase)
include hlower

theorem normalizeToken_eq_iff (s t : Str) : normalizeToken host s = normalizeToken host t ↔
    orElse (normalizeToken host s) "unknown".toList =
      orElse (normalizeToken host t) "unknown".toList ∧ (trim s = [] ↔ trim t = []) := by
  have hs := normalizeToken_eq_nil_iff hlower s
  have ht := normalizeToken_eq_nil_iff hlower t
  constructor
  · intro heq
    rw [← hs, ← ht, heq]
    exact ⟨rfl, Iff.rfl⟩
  · rintro ⟨heq, hblank⟩
    rw [← hs, ← ht] at hblank
    unfold orElse at heq
    by_cases hnil : normalizeToken host s = []
    · rw [hnil, hblank.mp hnil]
    · rw [if_neg hnil, if_neg fun h => hnil (hblank.mpr h)] at heq
      exact heq

/-- Two messages are kept apart unless their keys read alike or differ in blanks alone. -/
theorem separates_iff {dmScope : DmScope} (hscope : dmScope ≠ .main) {m m' : InboundMessage}
    (hm : ':' ∉ m.channel) (hm' : ':' ∉ m'.channel) : Separates host dmScope m m' ↔
      ¬ ReadsAlike dmScope (m.parts host) (m'.parts host) ∧
      ¬ ReadsAlike dmScope (m'.parts host) (m.parts host) ∧
      (SameSession dmScope (m.parts host) (m'.parts host) → BlanksAgree dmScope m m') := by
  have hkey : m.sessionKey host dmScope = m'.sessionKey host dmScope ↔
      SameSession dmScope (m.parts host) (m'.parts host) ∨
        ReadsAlike dmScope (m.parts host) (m'.parts host) ∨
        ReadsAlike dmScope (m'.parts host) (m.parts host) := by
    rw [sessionKey_eq_text hlower hscope, sessionKey_eq_text hlower hscope]
    exact key_eq_iff (colonFree_parts hlower hm) (colonFree_parts hlower hm') hscope
  have hchannel := normalizeToken_eq_iff hlower m.channel m'.channel
  have hpeer := normalizeToken_eq_iff hlower m.peer.id m'.peer.id
  unfold Separates BlanksAgree
  rw [hkey]
  constructor
  · intro h
    refine ⟨?_, ?_, ?_⟩
    · intro halike
      have hkind : m.peer.kind = m'.peer.kind := (h (.inr (.inl halike))).2.1
      exact halike.2.1 (hkind.symm.trans halike.1)
    · intro halike
      have hkind : m.peer.kind = m'.peer.kind := (h (.inr (.inr halike))).2.1
      exact halike.2.1 (hkind.trans halike.1)
    · intro hsame
      have hparts := h (.inl hsame)
      refine ⟨(hpeer.mp hparts.2.2.1).2, fun hcounts => ?_⟩
      exact (hchannel.mp (hparts.2.2.2.1 fun hboth => hcounts ⟨hboth.1, hboth.2.2⟩)).2
  · rintro ⟨halike, halike', hblanks⟩ (hsame | hclash | hclash)
    · have hblank := hblanks hsame
      refine ⟨hsame.agent, hsame.kind, hpeer.mpr ⟨hsame.peer, hblank.1⟩, ?_, ?_⟩
      · intro hboth
        have hcounts : ¬ (m.peer.kind = .direct ∧ dmScope = .perPeer) :=
          fun hdirect => hboth ⟨hdirect.1, hsame.kind.symm.trans hdirect.1, hdirect.2⟩
        exact hchannel.mpr ⟨hsame.channel hcounts, hblank.2 hcounts⟩
      · exact fun hkind _ hacc => hsame.account hkind hacc
    · exact absurd hclash halike
    · exact absurd hclash halike'

end

/-! ## An account that is named `group` -/

theorem toNat_toLower (c : Char) :
    c.toLower.toNat = if 65 ≤ c.toNat ∧ c.toNat ≤ 90 then c.toNat + 32 else c.toNat := by
  unfold Char.toLower
  split_ifs with hval hnat hnat
  · show (c.val + 32).toNat = c.val.toNat + 32
    have hle : c.val.toNat ≤ 90 := hnat.2
    have hadd : (32 : UInt32).toNat = 32 := rfl
    rw [UInt32.toNat_add, hadd]
    apply Nat.mod_eq_of_lt
    omega
  · exact absurd ⟨hval.1, hval.2⟩ hnat
  · exact absurd ⟨hnat.1, hnat.2⟩ hval
  · rfl

theorem trim_map_toLower (s : Str) : trim (s.map Char.toLower) = (trim s).map Char.toLower := by
  have hspace : isSpace ∘ Char.toLower = isSpace := by
    funext c
    show isSpace c.toLower = isSpace c
    unfold isSpace
    dsimp only
    rw [toNat_toLower]
    split_ifs with hupper
    · rw [Bool.eq_iff_iff]
      simp only [Bool.or_eq_true, Bool.and_eq_true, decide_eq_true_eq]
      omega
    · rfl
  unfold trim trimStart trimEnd List.rdropWhile
  rw [dropWhile_map, hspace, ← map_reverse, dropWhile_map, hspace, map_reverse]

/-- Lower-casing the ASCII letters and nothing else. -/
theorem lowerCases_ascii : LowerCases RouteHost.telegramOnly.toLowerCase where
  ascii _ _ := rfl
  idempotent s := by
    show (s.map Char.toLower).map Char.toLower = s.map Char.toLower
    rw [map_map]
    congr 1
    funext c
    apply Char.toNat_inj.mp
    show c.toLower.toLower.toNat = c.toLower.toNat
    rw [toNat_toLower c.toLower, toNat_toLower c]
    split_ifs <;> omega
  nonempty s hs := by
    show s.map Char.toLower ≠ []
    simpa using hs
  trimmed s hs := by
    show trim (s.map Char.toLower) = s.map Char.toLower
    rw [trim_map_toLower, hs]
  colon s hs := by
    obtain ⟨c, hc, hlow⟩ := mem_map.mp (show ':' ∈ s.map Char.toLower from hs)
    have hnat := toNat_toLower c
    rw [hlow] at hnat
    have hsame : c = ':' := by
      apply Char.toNat_inj.mp
      have hcolon : ':'.toNat = 58 := rfl
      rw [hcolon] at hnat ⊢
      split_ifs at hnat <;> omega
    exact hsame ▸ hc

def groupAccountMessage : InboundMessage where
  agentId := "main".toList
  channel := "telegram".toList
  accountId := some "group".toList
  peer := ⟨.direct, "42".toList⟩

def directGroupMessage : InboundMessage where
  agentId := "main".toList
  channel := "telegram".toList
  accountId := none
  peer := ⟨.group, "direct:42".toList⟩

theorem separates_iff_groupAccount :
    Separates .telegramOnly .perAccountChannelPeer groupAccountMessage directGroupMessage ↔
      ¬ ReadsAlike .perAccountChannelPeer (groupAccountMessage.parts .telegramOnly)
          (directGroupMessage.parts .telegramOnly) ∧
      ¬ ReadsAlike .perAccountChannelPeer (directGroupMessage.parts .telegramOnly)
          (groupAccountMessage.parts .telegramOnly) ∧
      (SameSession .perAccountChannelPeer (groupAccountMessage.parts .telegramOnly)
          (directGroupMessage.parts .telegramOnly) →
        BlanksAgree .perAccountChannelPeer groupAccountMessage directGroupMessage) :=
  separates_iff lowerCases_ascii (by decide) (by decide) (by decide)

/-- A direct chat and a group of one channel share `agent:main:telegram:group:direct:42`. -/
theorem not_separates : ¬ ∀ (host : RouteHost) (dmScope : DmScope) (m m' : InboundMessage),
      LowerCases host.toLowerCase → dmScope ≠ .main → m.peer.id ≠ [] → m'.peer.id ≠ [] →
      ':' ∉ m.channel → ':' ∉ m'.channel → Separates host dmScope m m' := by
  intro h
  have hseparates := h .telegramOnly .perAccountChannelPeer groupAccountMessage directGroupMessage
    lowerCases_ascii (by decide) (by decide) (by decide) (by decide) (by decide)
  have hkind := (hseparates (by decide +kernel)).2.1
  exact nomatch hkind

end OpenClaw
