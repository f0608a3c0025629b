import AmlW2.Lib.Run
import AmlW2.Tx.P2p
import Mathlib.Data.List.Nodup
import Mathlib.Logic.Function.Basic

/-!
# Management frames and their confirmations

A P2P action frame whose channels are rewritten is kept aside as it was submitted, in one place for
the whole driver, and put back when a P2P action frame is confirmed.  `Station` runs transmissions
and confirmations in any order and records every report to cfg80211 and every frame put back.  The
report of an acknowledged GAS initial request waits for the response, in one place for each
interface.
-/

namespace AmlW2.Tx

/-! ## What kind of frame it is -/

/-- The flags that `aml_filter_sp_mgmt_frame` returns. -/
structure SpRet where
  spFrame : Bool := false
  p2pAction : Bool := false
  dppAction : Bool := false
  csaAction : Bool := false
  gasAction : Bool := false
  gasInitReq : Bool := false
  gasInitRsp : Bool := false
  reportNoAcked : Bool := false
  mustTxSuc : Bool := false
  dppConnectStatusResult : Bool := false

/-- `ieee80211_is_action` -/
def isAction (buf : Memory) : Bool := (buf 0) &&& 0xfc = 0xd0

/-- A public action frame of the P2P vendor type. -/
def isP2pPublicAction (buf : Memory) : Bool :=
  (buf 0 &&& 0xf0) >>> 4 = 0x0d && buf 24 = 0x04 && buf 25 = 0x09 && buf 26 = 0x50 &&
    buf 27 = 0x6f && buf 28 = 0x9a && buf 29 = 0x09

/-- `enum p2p_action_type`, as far as `aml_filter_sp_mgmt_frame` distinguishes it. -/
def goNegReq : UInt8 := 0
def goNegRsp : UInt8 := 1
def goNegCfm : UInt8 := 2
def invitReq : UInt8 := 3
def invitRsp : UInt8 := 4

/-- The byte at `OUI_SUBTYPE_OFFSET`. -/
def ouiSubtype (buf : Memory) : UInt8 := buf 30

/-- The frames that are kept aside before transmission. -/
def savesP2p (buf : Memory) : Bool :=
  isP2pPublicAction buf && [goNegReq, goNegRsp, invitReq].contains (ouiSubtype buf)

/-- The frames whose confirmation puts back what is kept aside. -/
def restoresP2p (buf : Memory) : Bool :=
  isP2pPublicAction buf && [goNegReq, goNegRsp, invitReq, invitRsp].contains (ouiSubtype buf)

/-- The flags of a public action frame. -/
def publicActionRet (buf : Memory) : SpRet :=
  if buf 25 = 0x09 && buf 26 = 0x50 && buf 27 = 0x6f && buf 28 = 0x9a then
    if buf 29 = 0x09 then
      let subtype := ouiSubtype buf
      { p2pAction := true
        reportNoAcked := subtype ≠ goNegCfm && subtype ≠ invitRsp
        spFrame := [goNegRsp, goNegCfm, invitRsp, invitReq, goNegReq].contains subtype
        mustTxSuc := [goNegCfm, invitRsp].contains subtype }
    else if buf 29 = 0x1a then
      { spFrame := true, dppAction := true, dppConnectStatusResult := buf 31 = 12 }
    else {}
  else if buf 25 = 10 || buf 25 = 11 then
    { spFrame := true
      gasAction := true
      gasInitReq := buf 25 = 10
      gasInitRsp := buf 25 = 11
      dppAction := 8 ≤ buf 28 && buf 30 = 0xdd && buf 31 = 0x05 && buf 32 = 0x50 &&
        buf 33 = 0x6f && buf 34 = 0x9a && buf 35 = 0x1a && buf 36 = 0x01 }
  else { csaAction := buf 25 = 4 }

/-- What `aml_filter_sp_mgmt_frame` returns. -/
def spRet (buf : Memory) : SpRet :=
  let subtype := (buf 0 &&& 0xf0) >>> 4
  if subtype = 0x0d then if buf 24 = 0x04 then publicActionRet buf else {}
  else { spFrame := subtype = 0x0b }

/-! ## The content kept aside -/

/-- `g_scc_p2p_save` and its lengths, and `g_scc_p2p_peer_5g_support`. -/
structure P2pSave where
  save : Memory
  lenBefore : Nat
  lenDiff : Nat
  peer5gSupport : Bool
  /-- The frame whose content was last saved. -/
  owner : Nat

/-- `MAX_P2P_SAVE_LEN` -/
def maxP2pSaveLen : Nat := 500

/-- `aml_scc_p2p_action_restore`: the frame, its length as a 32-bit number,
and the place emptied. -/
def P2pSave.restore (p : P2pSave) (buf : Memory) (len : Nat) : Memory × Nat × P2pSave :=
  if p.lenBefore ≠ 0 then
    (buf.put 0 p.lenBefore p.save, (len + p.lenDiff) % 2 ^ 32, { p with lenBefore := 0 })
  else (buf, len, p)

section Filter

variable (toBand : UInt8 → Option Band)

/-- The rewriting of a frame that is kept aside. -/
def P2pSave.rewrite (p : P2pSave) (buf : Memory) (frameLen cookie : Nat) (chan : ChanDef) :
    Memory × Nat × P2pSave :=
  let changed := amlChangeP2pChanlist toBand p.peer5gSupport buf frameLen chan
  (amlChangeP2pOperchan toBand changed.1 frameLen chan, changed.2,
    { p with
      save := p.save.put 0 frameLen buf
      lenBefore := frameLen
      lenDiff := changed.2
      owner := cookie })

/-- A request starts without knowing whether the peer has 5 GHz channels. -/
def P2pSave.ask (p : P2pSave) (buf : Memory) : P2pSave :=
  if isP2pPublicAction buf && (ouiSubtype buf = goNegReq || ouiSubtype buf = invitReq) then
    { p with peer5gSupport := false }
  else p

/-- `aml_filter_sp_mgmt_frame` before transmission: the frame, by how much it is shorter, and what
is kept aside. -/
def P2pSave.txStart (p : P2pSave) (buf : Memory) (frameLen cookie : Nat) (scc : Option ChanDef) :
    Memory × Nat × P2pSave :=
  match savesP2p buf, scc with
  | true, some chan =>
      if chan.radar ∨ maxP2pSaveLen < frameLen ∨ p.lenBefore ≠ 0 then (buf, 0, p.ask buf)
      else (p.ask buf).rewrite toBand buf frameLen cookie chan
  | _, _ => (buf, 0, p.ask buf)

end Filter

/-- Whether a confirmation of the frame puts back what is kept aside. -/
def P2pSave.PutsBack (p : P2pSave) (buf : Memory) : Prop :=
  isAction buf = true ∧ restoresP2p buf = true ∧ p.lenBefore ≠ 0

instance (p : P2pSave) (buf : Memory) : Decidable (p.PutsBack buf) :=
  inferInstanceAs (Decidable (_ ∧ _))

/-- `aml_filter_sp_mgmt_frame` at a confirmation. -/
def P2pSave.txCfm (p : P2pSave) (buf : Memory) (len : Nat) : Memory × Nat × P2pSave :=
  if restoresP2p buf then p.restore buf len else (buf, len, p)

/-! ## Transmissions and confirmations -/

/-- The first bytes of a frame. -/
def content (buf : Memory) (len : Nat) : List UInt8 := (List.range len).map buf

/-- A frame given to `aml_start_mgmt_xmit`, with what it finds when it is called. -/
structure Submission where
  bytes : List UInt8
  /-- The length comes in a netlink attribute. -/
  bytes_lt : bytes.length < 65536
  /-- What is in the buffer before the frame is copied into it. -/
  room : Memory
  vif : Nat
  /-- The channel of the connected station interface, if there is one. -/
  scc : Option ChanDef
  csaOffsets : List Nat
  /-- `ap.csa->count`, on an access point that is switching channels. -/
  csaCount : Option UInt8

/-- The buffer with the frame copied into it. -/
def Submission.buffer (f : Submission) : Memory :=
  f.room.put 0 f.bytes.length fun i => f.bytes.getD i 0

/-- The buffer with the countdown of a channel switch written into it. -/
def Submission.countdown (f : Submission) (buf : Memory) : Memory :=
  match f.csaCount with
  | none => buf
  | some count => f.csaOffsets.foldl (fun buf offset => buf.put offset 1 fun _ => count) buf

/-- How `aml_start_mgmt_xmit` ends. -/
inductive Outcome where
  /-- The driver is recovering or suspended, or an allocation fails. -/
  | refused
  /-- The mapping fails, or the queue is inactive. -/
  | failed
  | queued

/-- A management frame on its way. -/
structure MgmtFrame where
  /-- The address of the buffer, as a number that no other frame has. -/
  cookie : Nat
  vif : Nat
  submitted : List UInt8
  buf : Memory
  frameLen : Nat
  /-- The bytes given to the firmware. -/
  sent : List UInt8

/-- `struct tx_cfm_wait_rsp`, a frame whose report waits for the response to it. -/
structure Waiting where
  cookie : Nat
  submitted : List UInt8
  /-- The copy in `skb`, unless that is `NULL`. -/
  copied : Option (List UInt8)

/-- A call of `cfg80211_mgmt_tx_status`. -/
structure Report where
  cookie : Nat
  submitted : List UInt8
  reported : List UInt8

/-- What a confirmation finds. -/
structure Cfm where
  acknowledged : Bool
  /-- A remain-on-channel period is under way. -/
  roc : Bool
  txqActive : Bool
  /-- `skb_copy` succeeds. -/
  copy : Bool

/-- The driver as far as its management frames go. -/
structure Station where
  save : P2pSave
  frames : List MgmtFrame
  waiting : Nat → Option Waiting
  nextCookie : Nat
  /-- The variable of `aml_tx_cfm_task`, which outlives a frame sent again. -/
  spRet : SpRet
  /-- The frames confirmed and not sent again. -/
  confirmed : List Nat
  reports : List Report
  /-- Each frame put back at a confirmation: the frame confirmed, and the frame whose content it
  was. -/
  restores : List (Nat × Nat)

/-- What can happen. -/
inductive MgmtEvent where
  | submit (f : Submission) (outcome : Outcome)
  | confirm (cookie : Nat) (cfm : Cfm)
  /-- `aml_tx_cfm_wait_rsp`, with the remain-on-channel period on an interface. -/
  | response (vif : Nat)
  /-- `aml_txq_drop_skb` -/
  | drop (cookie : Nat)
  /-- `aml_rx_parse_p2p_chan_list` learns whether the peer has 5 GHz channels. -/
  | peer (support : Bool)

/-- What ends a run. -/
inductive MgmtFault where
  /-- The frame that waits has lost its copy, and `skb_mac_header` is given `NULL`. -/
  | nullSkb

namespace Station

variable (toBand : UInt8 → Option Band)

/-- `aml_start_mgmt_xmit` -/
def submit (s : Station) (f : Submission) : Outcome → Station
  | .refused => s
  | .failed =>
      let started := s.save.txStart toBand f.buffer f.bytes.length s.nextCookie f.scc
      if isAction f.buffer then
        { s with
          nextCookie := s.nextCookie + 1
          save := if (AmlW2.Tx.spRet f.buffer).p2pAction then { started.2.2 with lenBefore := 0 }
            else started.2.2
          reports := s.reports ++ [⟨s.nextCookie, f.bytes, f.bytes⟩] }
      else { s with nextCookie := s.nextCookie + 1, save := started.2.2 }
  | .queued =>
      let started := s.save.txStart toBand f.buffer f.bytes.length s.nextCookie f.scc
      let buf := f.countdown started.1
      let frameLen := (f.bytes.length + 2 ^ 32 - started.2.1) % 2 ^ 32 % 2 ^ 16
      { s with
        nextCookie := s.nextCookie + 1
        save := started.2.2
        frames := s.frames ++
          [⟨s.nextCookie, f.vif, f.bytes, buf, frameLen, content buf frameLen⟩] }

/-- The flags a confirmation goes by. -/
def confirmRet (s : Station) (f : MgmtFrame) : SpRet :=
  if isAction f.buf then AmlW2.Tx.spRet f.buf else s.spRet

/-- Whether a confirmed frame is sent again. -/
def retries (s : Station) (f : MgmtFrame) (cfm : Cfm) : Bool :=
  let ret := s.confirmRet f
  !cfm.acknowledged && (ret.gasAction || ret.mustTxSuc || ret.dppConnectStatusResult) &&
    cfm.txqActive && cfm.roc

/-- Whether a confirmed frame is copied into `tx_cfm_wait`, for its report to wait. -/
def delays (s : Station) (f : MgmtFrame) (cfm : Cfm) : Bool :=
  cfm.acknowledged && (s.confirmRet f).gasInitReq && f.vif != 0

/-- What a confirmation makes of the frame, its length and what is kept aside. -/
def filtered (s : Station) (f : MgmtFrame) : Memory × Nat × P2pSave :=
  let filtered :=
    if isAction f.buf then s.save.txCfm f.buf f.frameLen else (f.buf, f.frameLen, s.save)
  (filtered.1, filtered.2.1 % 2 ^ 16, filtered.2.2)

/-- The part of `aml_tx_cfm_task` for a management frame. -/
def confirm (s : Station) (f : MgmtFrame) (cfm : Cfm) : Station :=
  let filtered := s.filtered f
  let bytes := content filtered.1 filtered.2.1
  let restores := if s.save.PutsBack f.buf then s.restores ++ [(f.cookie, s.save.owner)]
    else s.restores
  if s.retries f cfm then
    { s with
      save := filtered.2.2
      spRet := s.confirmRet f
      restores := restores
      frames := s.frames.map fun other =>
        if other.cookie = f.cookie then
          { f with buf := filtered.1, frameLen := filtered.2.1, sent := bytes } else other }
  else
    let left := { s with
      save := filtered.2.2
      spRet := {}
      confirmed := s.confirmed ++ [f.cookie]
      restores := restores
      frames := s.frames.filter fun other => other.cookie ≠ f.cookie }
    let reported := { left with reports := s.reports ++ [⟨f.cookie, f.submitted, bytes⟩] }
    if s.delays f cfm then
      if cfm.copy then
        { left with
          waiting := Function.update s.waiting f.vif (some ⟨f.cookie, f.submitted, some bytes⟩) }
      else
        -- `tx_cfm_wait.skb` is `NULL` now, and the cookie of a frame that waits is left there
        { reported with
          waiting := Function.update s.waiting f.vif
            ((s.waiting f.vif).map fun w => { w with copied := none }) }
    else reported

/-- `aml_tx_cfm_wait_rsp` -/
def response (s : Station) (vif : Nat) : Except MgmtFault Station :=
  match s.waiting vif with
  | none => .ok s
  | some ⟨_, _, none⟩ => .error .nullSkb
  | some ⟨cookie, submitted, some copied⟩ =>
      .ok { s with
        waiting := Function.update s.waiting vif none
        reports := s.reports ++ [⟨cookie, submitted, copied⟩] }

/-- `aml_txq_drop_skb`, which reports a management frame as it is. -/
def drop (s : Station) (f : MgmtFrame) : Station :=
  { s with
    frames := s.frames.filter fun other => other.cookie ≠ f.cookie
    reports := s.reports ++ [⟨f.cookie, f.submitted, content f.buf f.frameLen⟩] }

/-- One event. -/
def step (s : Station) : MgmtEvent → Except MgmtFault Station
  | .submit f outcome => .ok (s.submit toBand f outcome)
  | .confirm cookie cfm =>
      match s.frames.find? fun f => f.cookie = cookie with
      | none => .ok s
      | some f => .ok (s.confirm f cfm)
  | .response vif => s.response vif
  | .drop cookie =>
      match s.frames.find? fun f => f.cookie = cookie with
      | none => .ok s
      | some f => .ok (s.drop f)
  | .peer support => .ok { s with save := { s.save with peer5gSupport := support } }

/-- The driver before any frame. -/
def start : Station where
  save := ⟨fun _ => 0, 0, 0, false, 0⟩
  frames := []
  waiting := fun _ => none
  nextCookie := 0
  spRet := {}
  confirmed := []
  reports := []
  restores := []

/-- Every confirmed frame is reported, now or when its response comes, every report is of a frame as
it was submitted, and only with its own content put back. -/
structure Restored (s : Station) : Prop where
  reports : ∀ report ∈ s.reports, report.reported = report.submitted
  waiting : ∀ vif w, s.waiting vif = some w → w.copied = some w.submitted
  restores : ∀ restore ∈ s.restores, restore.1 = restore.2
  reported : ∀ cookie ∈ s.confirmed, (∃ report ∈ s.reports, report.cookie = cookie) ∨
    ∃ vif w, s.waiting vif = some w ∧ w.cookie = cookie

/-- A confirmation that puts back a frame puts back the one it confirms; any other that leads to a
report confirms a frame that was sent as it was submitted, as is a frame that is dropped; and where
a report is to wait, no other one waits. -/
def Undisturbed (s : Station) : MgmtEvent → Prop
  | .confirm cookie cfm => ∀ f ∈ s.frames, f.cookie = cookie →
      (s.save.PutsBack f.buf → s.save.owner = cookie) ∧
      (¬s.save.PutsBack f.buf → s.retries f cfm = false → f.sent = f.submitted) ∧
      (s.delays f cfm = true → s.waiting f.vif = none)
  | .drop cookie => ∀ f ∈ s.frames, f.cookie = cookie → f.sent = f.submitted
  | _ => True

end Station

/-! ## Content put back -/

theorem content_put (buf data : Memory) (len : Nat) :
    content (buf.put 0 len data) len = content data len := by
  apply List.map_congr_left
  intro i member
  have inside : buf.put 0 len data (0 + i) = data i :=
    Memory.put_inside (List.mem_range.mp member)
  rwa [Nat.zero_add] at inside

theorem Submission.content_buffer (f : Submission) : content f.buffer f.bytes.length = f.bytes := by
  rw [buffer, content_put]
  apply List.ext_getElem
  · simp [content]
  · intro i _ inside
    simp [content, inside]

/-- A frame is at most a 16-bit number shorter. -/
theorem amlChangeP2pChanlist_lt (toBand : UInt8 → Option Band) (peer5g : Bool) (buf : Memory)
    (frameLen : Nat) (chan : ChanDef) :
    (amlChangeP2pChanlist toBand peer5g buf frameLen chan).2 < 2 ^ 16 := by
  have positive : 0 < 2 ^ 16 := by decide
  simp only [amlChangeP2pChanlist]
  split
  · exact positive
  · split
    · exact positive
    · split
      · exact positive
      · exact Nat.mod_lt _ positive

/-- The same frame is kept aside, or none. -/
structure P2pSave.Same (p q : P2pSave) : Prop where
  save : q.save = p.save
  lenBefore : q.lenBefore = p.lenBefore
  lenDiff : q.lenDiff = p.lenDiff
  owner : q.owner = p.owner

/-- The frame given is kept aside, where there was none. -/
structure P2pSave.Saves (p q : P2pSave) (buf : Memory) (frameLen cookie shorter : Nat) : Prop where
  empty : p.lenBefore = 0
  save : content q.save frameLen = content buf frameLen
  lenBefore : q.lenBefore = frameLen
  lenDiff : q.lenDiff = shorter
  small : shorter < 2 ^ 16
  owner : q.owner = cookie

theorem P2pSave.same_ask (p : P2pSave) (buf : Memory) : p.Same (p.ask buf) := by
  unfold ask
  split <;> exact ⟨rfl, rfl, rfl, rfl⟩

/-- Before its transmission a frame is either left as it is, with what is kept aside, or is kept
aside itself. -/
theorem P2pSave.txStart_cases (toBand : UInt8 → Option Band) (p : P2pSave) (buf : Memory)
    (frameLen cookie : Nat) (scc : Option ChanDef) :
    (p.Same (p.txStart toBand buf frameLen cookie scc).2.2 ∧
        (p.txStart toBand buf frameLen cookie scc).2.1 = 0) ∨
      p.Saves (p.txStart toBand buf frameLen cookie scc).2.2 buf frameLen cookie
        (p.txStart toBand buf frameLen cookie scc).2.1 := by
  unfold txStart
  split
  · next chan _ =>
      split
      · exact .inl ⟨p.same_ask buf, rfl⟩
      · next free =>
          have empty : p.lenBefore = 0 := by
            by_contra full
            exact free (.inr (.inr full))
          exact .inr ⟨empty, content_put _ _ _, rfl, rfl, amlChangeP2pChanlist_lt _ _ _ _ _, rfl⟩
  · exact .inl ⟨p.same_ask buf, rfl⟩

namespace Station

/-- What is kept aside is the content of a frame, and the length that it lost. -/
structure Keeps (p : P2pSave) (f : MgmtFrame) : Prop where
  length : f.submitted.length = p.lenBefore
  save : content p.save p.lenBefore = f.submitted
  lenDiff : (f.frameLen + p.lenDiff) % 2 ^ 32 % 2 ^ 16 = p.lenBefore

/-- No frame has the cookie any more. -/
structure Done (s : Station) (cookie : Nat) : Prop where
  old : cookie < s.nextCookie
  gone : ∀ f ∈ s.frames, f.cookie ≠ cookie

/-- A frame is reported, or waits, once it is no more on its way, and only one or the other; what
waits was confirmed, and waits in one place. -/
structure Ledger (s : Station) : Prop where
  reports : ∀ report ∈ s.reports, s.Done report.cookie
  waiting : ∀ vif w, s.waiting vif = some w → s.Done w.cookie ∧ w.cookie ∈ s.confirmed ∧
    ∀ report ∈ s.reports, report.cookie ≠ w.cookie
  apart : ∀ vif other w w', s.waiting vif = some w → s.waiting other = some w' →
    w.cookie = w'.cookie → vif = other

/-- Frames are reported right, each frame on its way is the one that was sent, and what is kept
aside is what its owner was submitted as. -/
structure Sound (s : Station) : Prop where
  restored : s.Restored
  ledger : s.Ledger
  fresh : ∀ f ∈ s.frames, f.cookie < s.nextCookie
  nodup : (s.frames.map MgmtFrame.cookie).Nodup
  sent : ∀ f ∈ s.frames, content f.buf f.frameLen = f.sent
  short : ∀ f ∈ s.frames, f.frameLen < 2 ^ 16
  owner : s.save.lenBefore ≠ 0 → s.save.owner < s.nextCookie
  keeps : s.save.lenBefore ≠ 0 → ∀ f ∈ s.frames, f.cookie = s.save.owner → Keeps s.save f

theorem Keeps.of_same {p q : P2pSave} {f : MgmtFrame} (keeps : Keeps p f) (same : p.Same q) :
    Keeps q f := by
  refine ⟨?_, ?_, ?_⟩
  · rw [same.lenBefore, keeps.length]
  · rw [same.lenBefore, same.save, keeps.save]
  · rw [same.lenBefore, same.lenDiff, keeps.lenDiff]

/-! ### Reports -/

/-- A cookie stays without a frame when frames go, and when others come. -/
theorem Done.mono {s t : Station} {cookie : Nat} (done : s.Done cookie)
    (next : s.nextCookie ≤ t.nextCookie)
    (frames : ∀ f ∈ t.frames, s.nextCookie ≤ f.cookie ∨ ∃ g ∈ s.frames, g.cookie = f.cookie) :
    t.Done cookie where
  old := done.old.trans_le next
  gone f member := by
    rcases frames f member with new | ⟨g, had, same⟩
    · exact (done.old.trans_le new).ne'
    · exact same ▸ done.gone g had

/-- No report is made. -/
theorem Ledger.mono {s t : Station} (ledger : s.Ledger) (done : ∀ c, s.Done c → t.Done c)
    (reports : t.reports = s.reports) (waiting : t.waiting = s.waiting)
    (confirmed : t.confirmed = s.confirmed) : t.Ledger where
  reports report member := done _ (ledger.reports report (reports ▸ member))
  waiting vif w waits := by
    rw [waiting] at waits
    rw [reports, confirmed]
    obtain ⟨gone, listed⟩ := ledger.waiting vif w waits
    exact ⟨done _ gone, listed⟩
  apart := waiting ▸ ledger.apart

/-- A report is made of a frame that no longer waits. -/
theorem Ledger.report {s t : Station} (ledger : s.Ledger) (done : ∀ c, s.Done c → t.Done c)
    {r : Report} (gone : t.Done r.cookie) (reports : t.reports = s.reports ++ [r])
    (waiting : ∀ vif w, t.waiting vif = some w →
      ∃ old, s.waiting vif = some old ∧ old.cookie = w.cookie ∧ w.cookie ≠ r.cookie)
    (confirmed : ∀ cookie ∈ s.confirmed, cookie ∈ t.confirmed) : t.Ledger where
  reports := by
    rw [reports]
    exact List.forall_mem_append.mpr ⟨fun report member => done _ (ledger.reports report member),
      List.forall_mem_singleton.mpr gone⟩
  waiting vif w waits := by
    obtain ⟨old, waited, same, other⟩ := waiting vif w waits
    obtain ⟨left, listed, unreported⟩ := ledger.waiting vif old waited
    rw [reports, ← same]
    refine ⟨done _ left, confirmed _ listed, List.forall_mem_append.mpr ⟨unreported, ?_⟩⟩
    exact List.forall_mem_singleton.mpr (same ▸ other.symm)
  apart vif other w w' waits waits' same := by
    obtain ⟨old, waited, cookie, -⟩ := waiting vif w waits
    obtain ⟨old', waited', cookie', -⟩ := waiting other w' waits'
    exact ledger.apart vif other old old' waited waited' (cookie.trans (same.trans cookie'.symm))

/-- The report of a frame that was on its way waits. -/
theorem Ledger.wait {s t : Station} (ledger : s.Ledger) (done : ∀ c, s.Done c → t.Done c)
    {f : MgmtFrame} (member : f ∈ s.frames) {vif : Nat} {w : Waiting} (cookie : w.cookie = f.cookie)
    (gone : t.Done f.cookie) (reports : t.reports = s.reports)
    (waiting : t.waiting = Function.update s.waiting vif (some w))
    (confirmed : t.confirmed = s.confirmed ++ [f.cookie]) : t.Ledger where
  reports report member := done _ (ledger.reports report (reports ▸ member))
  waiting other v waits := by
    rw [waiting, Function.update_apply] at waits
    rw [reports, confirmed]
    split at waits
    · obtain rfl := Option.some.inj waits
      rw [cookie]
      exact ⟨gone, List.mem_append_right _ (List.mem_singleton_self _),
        fun report reported => ((ledger.reports report reported).gone f member).symm⟩
    · obtain ⟨left, listed, unreported⟩ := ledger.waiting other v waits
      exact ⟨done _ left, List.mem_append_left _ listed, unreported⟩
  apart one other v v' waits waits' same := by
    rw [waiting, Function.update_apply] at waits waits'
    have first : ∀ other v, s.waiting other = some v → v.cookie ≠ w.cookie :=
      fun other v waits => cookie ▸ ((ledger.waiting other v waits).1.gone f member).symm
    split at waits <;> split at waits'
    · next here there => exact here.trans there.symm
    · obtain rfl := Option.some.inj waits
      exact absurd same.symm (first other v' waits')
    · obtain rfl := Option.some.inj waits'
      exact absurd same (first one v waits)
    · exact ledger.apart one other v v' waits waits' same

/-- The cookie of a frame that is taken out. -/
theorem Done.left {s t : Station} {cookie : Nat} (next : cookie < s.nextCookie)
    (cookies : t.nextCookie = s.nextCookie)
    (frames : t.frames = s.frames.filter fun other => other.cookie ≠ cookie) : t.Done cookie where
  old := cookies ▸ next
  gone f member := by
    rw [frames] at member
    exact of_decide_eq_true (List.mem_filter.mp member).2

/-- The cookie of a frame that had gone before. -/
theorem Done.filter {s t : Station} {cookie c : Nat} (done : s.Done c)
    (cookies : t.nextCookie = s.nextCookie)
    (frames : t.frames = s.frames.filter fun other => other.cookie ≠ cookie) : t.Done c := by
  refine done.mono cookies.ge fun f member => .inr ⟨f, ?_, rfl⟩
  rw [frames] at member
  exact (List.mem_filter.mp member).1

/-! ### What is kept aside -/

/-- A frame that no longer counts, or a place that is emptied. -/
theorem Sound.sublist {s t : Station} (sound : s.Sound) (restored : t.Restored)
    (ledger : t.Ledger) (frames : t.frames.Sublist s.frames) (cookie : t.nextCookie = s.nextCookie)
    (save : s.save.Same t.save ∨ t.save.lenBefore = 0) : t.Sound where
  restored := restored
  ledger := ledger
  fresh f member := cookie ▸ sound.fresh f (frames.subset member)
  nodup := sound.nodup.sublist (frames.map _)
  sent f member := sound.sent f (frames.subset member)
  short f member := sound.short f (frames.subset member)
  owner full := by
    obtain same | empty := save
    · rw [cookie, same.owner]
      exact sound.owner (same.lenBefore ▸ full)
    · exact absurd empty full
  keeps full f member own := by
    obtain same | empty := save
    · rw [same.owner] at own
      exact (sound.keeps (same.lenBefore ▸ full) f (frames.subset member) own).of_same same
    · exact absurd empty full

section Steps

variable (toBand : UInt8 → Option Band) {s : Station}

/-- What is kept aside when a frame starts is still that of its owner. -/
theorem Sound.txStart (sound : s.Sound) (buf : Memory) (frameLen : Nat) (scc : Option ChanDef) :
    let p := (s.save.txStart toBand buf frameLen s.nextCookie scc).2.2
    p.lenBefore ≠ 0 → p.owner < s.nextCookie + 1 ∧
      ∀ f ∈ s.frames, f.cookie = p.owner → Keeps p f := by
  intro p full
  rcases s.save.txStart_cases toBand buf frameLen s.nextCookie scc with ⟨same, _⟩ | saves
  · have held : s.save.lenBefore ≠ 0 := same.lenBefore ▸ full
    rw [same.owner]
    exact ⟨Nat.lt_succ_of_lt (sound.owner held), fun f member own =>
      (sound.keeps held f member own).of_same same⟩
  · rw [saves.owner]
    exact ⟨Nat.lt_succ_self _, fun f member own =>
      absurd own (Nat.ne_of_lt (sound.fresh f member))⟩

/-- A frame is reported as it was submitted. -/
theorem Restored.report {t : Station} {r : Report} (restored : s.Restored)
    (right : r.reported = r.submitted) (reports : t.reports = s.reports ++ [r])
    (waiting : t.waiting = s.waiting) (restores : ∀ restore ∈ t.restores, restore.1 = restore.2)
    (confirmed : ∀ cookie ∈ t.confirmed, cookie ∈ s.confirmed ∨ cookie = r.cookie) :
    t.Restored where
  reports := by
    rw [reports]
    exact List.forall_mem_append.mpr ⟨restored.reports, List.forall_mem_singleton.mpr right⟩
  waiting := waiting ▸ restored.waiting
  restores := restores
  reported cookie member := by
    rw [reports, waiting]
    rcases confirmed cookie member with before | rfl
    · refine (restored.reported cookie before).imp_left fun ⟨report, reported, same⟩ => ?_
      exact ⟨report, List.mem_append_left _ reported, same⟩
    · exact .inl ⟨r, List.mem_append_right _ (List.mem_singleton_self r), rfl⟩

/-- The report of a frame as it was submitted waits, in a place where none did. -/
theorem Restored.wait {t : Station} {f : MgmtFrame} {bytes : List UInt8} (restored : s.Restored)
    (right : bytes = f.submitted) (none : s.waiting f.vif = none)
    (reports : t.reports = s.reports)
    (waiting : t.waiting = Function.update s.waiting f.vif
      (some ⟨f.cookie, f.submitted, some bytes⟩))
    (restores : ∀ restore ∈ t.restores, restore.1 = restore.2)
    (confirmed : ∀ cookie ∈ t.confirmed, cookie ∈ s.confirmed ∨ cookie = f.cookie) :
    t.Restored where
  reports := reports ▸ restored.reports
  waiting vif w waits := by
    rw [waiting, Function.update_apply] at waits
    split at waits
    · obtain rfl := Option.some.inj waits
      exact congrArg some right
    · exact restored.waiting vif w waits
  restores := restores
  reported cookie member := by
    rw [reports, waiting]
    rcases confirmed cookie member with before | rfl
    · refine (restored.reported cookie before).imp_right fun ⟨vif, w, waits, same⟩ => ?_
      refine ⟨vif, w, ?_, same⟩
      rwa [Function.update_of_ne]
      rintro rfl
      cases none.symm.trans waits
    · exact .inr ⟨f.vif, _, Function.update_self _ _ _, rfl⟩

/-- A new frame that is kept aside is kept as it was submitted. -/
theorem keeps_new (f : Submission) {p q : P2pSave} {shorter cookie : Nat}
    (saves : p.Saves q f.buffer f.bytes.length cookie shorter) (buf : Memory) (sent : List UInt8) :
    Keeps q ⟨cookie, f.vif, f.bytes, buf,
      (f.bytes.length + 2 ^ 32 - shorter) % 2 ^ 32 % 2 ^ 16, sent⟩ := by
  have length_lt := f.bytes_lt
  have small := saves.small
  refine ⟨saves.lenBefore.symm, ?_, ?_⟩
  · rw [saves.lenBefore, saves.save, f.content_buffer]
  · rw [saves.lenBefore, saves.lenDiff]
    show ((f.bytes.length + 2 ^ 32 - shorter) % 2 ^ 32 % 2 ^ 16 + shorter) % 2 ^ 32 % 2 ^ 16 =
      f.bytes.length
    omega

theorem Sound.submit (sound : s.Sound) (f : Submission) (outcome : Outcome) :
    (s.submit toBand f outcome).Sound := by
  have started := sound.txStart toBand f.buffer f.bytes.length f.scc
  have fresh : ∀ g ∈ s.frames, g.cookie < s.nextCookie + 1 := fun g member =>
    Nat.lt_succ_of_lt (sound.fresh g member)
  have more : s.nextCookie ≤ s.nextCookie + 1 := Nat.le_succ _
  cases outcome with
  | refused => exact sound
  | failed =>
      simp only [Station.submit]
      split
      · refine ⟨?_, ?_, fresh, sound.nodup, sound.sent, sound.short, ?_, ?_⟩
        · exact sound.restored.report rfl rfl rfl sound.restored.restores fun _ => .inl
        · refine sound.ledger.report (fun c done => done.mono more fun g had => .inr ⟨g, had, rfl⟩)
            ?_ rfl (fun vif w waits => ⟨w, waits, rfl, ?_⟩) fun _ => id
          · exact ⟨Nat.lt_succ_self _, fun g had => (sound.fresh g had).ne⟩
          · exact (sound.ledger.waiting vif w waits).1.old.ne
        · dsimp only
          split
          · exact fun full => absurd rfl full
          · exact fun full => (started full).1
        · dsimp only
          split
          · exact fun full => absurd rfl full
          · exact fun full => (started full).2
      · exact ⟨⟨sound.restored.reports, sound.restored.waiting, sound.restored.restores,
          sound.restored.reported⟩, sound.ledger.mono
            (fun c done => done.mono more fun g had => .inr ⟨g, had, rfl⟩) rfl rfl rfl, fresh,
          sound.nodup, sound.sent, sound.short, fun full => (started full).1,
          fun full => (started full).2⟩
  | queued =>
      have unused : s.nextCookie ∉ s.frames.map MgmtFrame.cookie := by
        intro used
        obtain ⟨g, member, same⟩ := List.mem_map.mp used
        exact absurd same (Nat.ne_of_lt (sound.fresh g member))
      refine ⟨⟨sound.restored.reports, sound.restored.waiting, sound.restored.restores,
        sound.restored.reported⟩, ?_, ?_, ?_, ?_, ?_, fun full => (started full).1, ?_⟩
      · refine sound.ledger.mono (fun c done => done.mono more ?_) rfl rfl rfl
        exact List.forall_mem_append.mpr ⟨fun g had => .inr ⟨g, had, rfl⟩,
          List.forall_mem_singleton.mpr (.inl le_rfl)⟩
      · exact List.forall_mem_append.mpr ⟨fresh, by simp [Station.submit]⟩
      · simp only [Station.submit, List.map_append, List.map_singleton]
        exact (List.nodup_append_comm.mp
          (List.nodup_cons.mpr ⟨unused, sound.nodup⟩ : ([_] ++ _).Nodup))
      · exact List.forall_mem_append.mpr ⟨sound.sent, by simp⟩
      · exact List.forall_mem_append.mpr ⟨sound.short, by simp [Nat.mod_lt]⟩
      · intro full g member own
        rcases List.mem_append.mp member with before | new
        · exact (started full).2 g before own
        · obtain rfl := List.mem_singleton.mp new
          rcases s.save.txStart_cases toBand f.buffer f.bytes.length s.nextCookie f.scc with
            ⟨same, _⟩ | saves
          · have held := sound.owner (same.lenBefore ▸ full)
            exact absurd (same.owner ▸ own.symm) (Nat.ne_of_lt held)
          · exact keeps_new f saves _ _

/-! ### Confirmations -/

theorem filtered_of_putsBack {f : MgmtFrame} (back : s.save.PutsBack f.buf) :
    s.filtered f = (f.buf.put 0 s.save.lenBefore s.save.save,
      (f.frameLen + s.save.lenDiff) % 2 ^ 32 % 2 ^ 16, { s.save with lenBefore := 0 }) := by
  obtain ⟨action, restores, full⟩ := back
  simp only [filtered, P2pSave.txCfm, P2pSave.restore, if_pos action, if_pos restores, if_pos full]

theorem filtered_of_not_putsBack {f : MgmtFrame} (alone : ¬s.save.PutsBack f.buf)
    (short : f.frameLen < 2 ^ 16) : s.filtered f = (f.buf, f.frameLen, s.save) := by
  have same : (if isAction f.buf then s.save.txCfm f.buf f.frameLen
      else (f.buf, f.frameLen, s.save)) = (f.buf, f.frameLen, s.save) := by
    split
    · next action =>
        rw [P2pSave.txCfm]
        split
        · next restores =>
            have empty : ¬s.save.lenBefore ≠ 0 := fun full => alone ⟨action, restores, full⟩
            rw [P2pSave.restore, if_neg empty]
        · rfl
    · rfl
  simp only [filtered, same, Nat.mod_eq_of_lt short]

/-- What a confirmation reports: the frame as it was submitted, if that is put back, and the frame
as it was sent, if nothing is. -/
theorem Sound.content_filtered (sound : s.Sound) {f : MgmtFrame} (member : f ∈ s.frames) :
    (s.save.PutsBack f.buf → s.save.owner = f.cookie →
      content (s.filtered f).1 (s.filtered f).2.1 = f.submitted) ∧
    (¬s.save.PutsBack f.buf → content (s.filtered f).1 (s.filtered f).2.1 = f.sent) := by
  constructor
  · intro back own
    have keeps := sound.keeps back.2.2 f member own.symm
    rw [filtered_of_putsBack back]
    dsimp only
    rw [keeps.lenDiff, content_put, keeps.save]
  · intro alone
    rw [filtered_of_not_putsBack alone (sound.short f member)]
    exact sound.sent f member

/-- A confirmation keeps what is kept aside, or puts it back. -/
theorem Sound.save_filtered (sound : s.Sound) {f : MgmtFrame} (member : f ∈ s.frames) :
    s.save.Same (s.filtered f).2.2 ∨ (s.filtered f).2.2.lenBefore = 0 := by
  by_cases back : s.save.PutsBack f.buf
  · rw [filtered_of_putsBack back]
    exact .inr rfl
  · rw [filtered_of_not_putsBack back (sound.short f member)]
    exact .inl ⟨rfl, rfl, rfl, rfl⟩

theorem Sound.restores (sound : s.Sound) {f : MgmtFrame}
    (own : s.save.PutsBack f.buf → s.save.owner = f.cookie) :
    ∀ restore ∈ (if s.save.PutsBack f.buf then s.restores ++ [(f.cookie, s.save.owner)]
      else s.restores), restore.1 = restore.2 := by
  intro restore member
  split at member
  · next back =>
      rcases List.mem_append.mp member with before | new
      · exact sound.restored.restores restore before
      · obtain rfl := List.mem_singleton.mp new
        exact (own back).symm
  · exact sound.restored.restores restore member

/-- The cookies stay what they are when a frame is sent again. -/
theorem map_cookie_replaced (frames : List MgmtFrame) {f again : MgmtFrame}
    (cookie : again.cookie = f.cookie) :
    (frames.map fun other => if other.cookie = f.cookie then again else other).map
      MgmtFrame.cookie = frames.map MgmtFrame.cookie := by
  rw [List.map_map]
  apply List.map_congr_left
  intro other _
  simp only [Function.comp_apply]
  split
  · next same => rw [cookie, same]
  · rfl

theorem forall_replaced {frames : List MgmtFrame} {f again : MgmtFrame} {good : MgmtFrame → Prop}
    (before : ∀ other ∈ frames, good other) (now : good again) :
    ∀ other ∈ frames.map fun other => if other.cookie = f.cookie then again else other,
      good other := by
  intro other member
  obtain ⟨old, had, rfl⟩ := List.mem_map.mp member
  split
  · exact now
  · exact before old had

/-- A confirmed frame that is sent again. -/
theorem Sound.again (sound : s.Sound) {f : MgmtFrame} (member : f ∈ s.frames)
    {t : Station} (restored : t.Restored) (reports : t.reports = s.reports)
    (waiting : t.waiting = s.waiting) (confirmed : t.confirmed = s.confirmed)
    (cookie : t.nextCookie = s.nextCookie) (save : t.save = (s.filtered f).2.2)
    (frames : t.frames = s.frames.map fun other =>
      if other.cookie = f.cookie then
        { f with
          buf := (s.filtered f).1
          frameLen := (s.filtered f).2.1
          sent := content (s.filtered f).1 (s.filtered f).2.1 }
      else other) : t.Sound := by
  have kept := sound.save_filtered member
  have same_or_empty : t.save.lenBefore ≠ 0 → s.save.Same t.save := by
    intro full
    rw [save] at full ⊢
    exact kept.resolve_right full
  refine ⟨restored, ?_, ?_, ?_, ?_, ?_, ?_, ?_⟩
  · refine sound.ledger.mono (fun c done => done.mono cookie.ge ?_) reports waiting confirmed
    rw [frames]
    exact forall_replaced (fun g had => .inr ⟨g, had, rfl⟩) (.inr ⟨f, member, rfl⟩)
  · rw [frames, cookie]
    exact forall_replaced sound.fresh (sound.fresh f member)
  · rw [frames, map_cookie_replaced]
    · exact sound.nodup
    · rfl
  · rw [frames]
    exact forall_replaced sound.sent rfl
  · rw [frames]
    exact forall_replaced sound.short (Nat.mod_lt _ (by decide))
  · intro full
    have same := same_or_empty full
    rw [cookie, same.owner]
    exact sound.owner (same.lenBefore ▸ full)
  · intro full
    have same := same_or_empty full
    have held : s.save.lenBefore ≠ 0 := same.lenBefore ▸ full
    rw [frames]
    apply forall_replaced
    · intro other had own
      exact (sound.keeps held other had (own.trans same.owner)).of_same same
    · intro own
      have keeps := sound.keeps held f member (own.trans same.owner)
      have alone : ¬s.save.PutsBack f.buf := by
        intro back
        apply full
        rw [save, filtered_of_putsBack back]
      rw [filtered_of_not_putsBack alone (sound.short f member)]
      exact ⟨(keeps.of_same same).length, (keeps.of_same same).save, (keeps.of_same same).lenDiff⟩

/-- A frame that is not sent again is reported, or its report waits, in a place where none does. -/
theorem Sound.settle (sound : s.Sound) {f : MgmtFrame} (member : f ∈ s.frames) {cfm : Cfm}
    (own : s.save.PutsBack f.buf → s.save.owner = f.cookie)
    (right : content (s.filtered f).1 (s.filtered f).2.1 = f.submitted)
    (final : s.retries f cfm = false) (free : s.delays f cfm = true → s.waiting f.vif = none) :
    (s.confirm f cfm).Sound := by
  have restores := sound.restores own
  have kept := sound.save_filtered member
  have more : ∀ cookie ∈ s.confirmed, cookie ∈ s.confirmed ++ [f.cookie] :=
    fun cookie before => List.mem_append_left _ before
  have settled : ∀ cookie ∈ s.confirmed ++ [f.cookie], cookie ∈ s.confirmed ∨ cookie = f.cookie :=
    fun cookie now => by simpa using now
  have known := sound.fresh f member
  have unwaited : ∀ vif w, s.waiting vif = some w → w.cookie ≠ f.cookie := fun vif w waits =>
    ((sound.ledger.waiting vif w waits).1.gone f member).symm
  cases waits : s.delays f cfm with
  | false =>
      simp only [Station.confirm, final, waits, Bool.false_eq_true, if_false]
      exact sound.sublist (sound.restored.report right rfl rfl restores settled)
        (sound.ledger.report (fun _ done => done.filter rfl rfl) (.left (s := s) known rfl rfl) rfl
          (fun vif w waits => ⟨w, waits, rfl, unwaited vif w waits⟩) more)
        List.filter_sublist rfl kept
  | true =>
      have none := free waits
      cases copied : cfm.copy with
      | false =>
          have unmoved : Function.update s.waiting f.vif
              ((s.waiting f.vif).map fun w => { w with copied := Option.none }) = s.waiting := by
            rw [none, Option.map_none, ← none, Function.update_eq_self]
          simp only [Station.confirm, final, waits, copied, unmoved, Bool.false_eq_true, if_false,
            if_true]
          exact sound.sublist (sound.restored.report right rfl rfl restores settled)
            (sound.ledger.report (fun _ done => done.filter rfl rfl)
              (.left (s := s) known rfl rfl) rfl
              (fun vif w waits => ⟨w, waits, rfl, unwaited vif w waits⟩) more)
            List.filter_sublist rfl kept
      | true =>
          simp only [Station.confirm, final, waits, copied, Bool.false_eq_true, if_false, if_true]
          refine sound.sublist (sound.restored.wait right none rfl rfl restores settled)
            (sound.ledger.wait (fun _ done => done.filter rfl rfl) member rfl
              (.left (s := s) known rfl rfl) rfl rfl rfl) List.filter_sublist rfl kept

theorem Sound.confirm (sound : s.Sound) {f : MgmtFrame} (member : f ∈ s.frames) {cfm : Cfm}
    (own : s.save.PutsBack f.buf → s.save.owner = f.cookie)
    (unchanged : ¬s.save.PutsBack f.buf → s.retries f cfm = false → f.sent = f.submitted)
    (free : s.delays f cfm = true → s.waiting f.vif = none) : (s.confirm f cfm).Sound := by
  cases again : s.retries f cfm with
  | true =>
      simp only [Station.confirm, again, if_true]
      exact sound.again member ⟨sound.restored.reports, sound.restored.waiting,
        sound.restores own, sound.restored.reported⟩ rfl rfl rfl rfl rfl rfl
  | false =>
      refine sound.settle member own ?_ again free
      have content_eq := sound.content_filtered member
      by_cases back : s.save.PutsBack f.buf
      · exact content_eq.1 back (own back)
      · rw [content_eq.2 back]
        exact unchanged back again

theorem Sound.response (sound : s.Sound) {vif : Nat} {next : Station}
    (answered : s.response vif = .ok next) : next.Sound := by
  unfold Station.response at answered
  split at answered
  · cases answered
    exact sound
  · cases answered
  · next cookie submitted copied waits =>
      cases answered
      have right : copied = submitted := Option.some.inj (sound.restored.waiting vif _ waits)
      have others : ∀ other w, Function.update s.waiting vif none other = some w →
          other ≠ vif ∧ s.waiting other = some w := by
        intro other w waits'
        rw [Function.update_apply] at waits'
        split at waits'
        · cases waits'
        · next ne => exact ⟨ne, waits'⟩
      refine sound.sublist ⟨?_, ?_, sound.restored.restores, ?_⟩ ?_ (List.Sublist.refl _) rfl
        (.inl ⟨rfl, rfl, rfl, rfl⟩)
      · exact List.forall_mem_append.mpr ⟨sound.restored.reports,
          List.forall_mem_singleton.mpr right⟩
      · exact fun other w waits' => sound.restored.waiting other w (others other w waits').2
      · intro c confirmed
        rcases sound.restored.reported c confirmed with
          ⟨r, reported, same⟩ | ⟨other, w, waits', rfl⟩
        · exact .inl ⟨r, List.mem_append_left _ reported, same⟩
        · rcases eq_or_ne other vif with rfl | ne
          · obtain rfl := Option.some.inj (waits.symm.trans waits')
            exact .inl ⟨_, List.mem_append_right _ (List.mem_singleton_self _), rfl⟩
          · exact .inr ⟨other, w, (Function.update_of_ne ne _ _).trans waits', rfl⟩
      · obtain ⟨gone, -, -⟩ := sound.ledger.waiting vif _ waits
        refine sound.ledger.report (fun c done => ⟨done.old, done.gone⟩) ⟨gone.old, gone.gone⟩ rfl
          (fun other w waits' => ⟨w, (others other w waits').2, rfl, fun same => ?_⟩) fun _ => id
        obtain ⟨ne, waits'⟩ := others other w waits'
        exact ne (sound.ledger.apart other vif w _ waits' waits same)

theorem Sound.drop (sound : s.Sound) {f : MgmtFrame} (member : f ∈ s.frames)
    (unchanged : f.sent = f.submitted) : (s.drop f).Sound := by
  have known := sound.fresh f member
  refine sound.sublist ?_ ?_ List.filter_sublist rfl (.inl ⟨rfl, rfl, rfl, rfl⟩)
  · exact sound.restored.report ((sound.sent f member).trans unchanged) rfl rfl
      sound.restored.restores fun _ => .inl
  · exact sound.ledger.report (fun _ done => done.filter rfl rfl) (.left (s := s) known rfl rfl) rfl
      (fun vif w waits => ⟨w, waits, rfl,
        ((sound.ledger.waiting vif w waits).1.gone f member).symm⟩) fun _ => id

theorem Sound.step (sound : s.Sound) {event : MgmtEvent} {next : Station}
    (undisturbed : s.Undisturbed event) (stepped : s.step toBand event = .ok next) :
    next.Sound := by
  cases event with
  | submit f outcome =>
      cases stepped
      exact sound.submit toBand f outcome
  | confirm cookie cfm =>
      simp only [Station.step] at stepped
      split at stepped
      · cases stepped
        exact sound
      · next f found =>
          cases stepped
          have member := List.mem_of_find?_eq_some found
          have same : f.cookie = cookie := by simpa using List.find?_some found
          obtain ⟨own, unchanged, free⟩ := undisturbed f member same
          exact sound.confirm member (same ▸ own) unchanged free
  | response vif => exact sound.response stepped
  | drop cookie =>
      simp only [Station.step] at stepped
      split at stepped
      · cases stepped
        exact sound
      · next f found =>
          cases stepped
          have member := List.mem_of_find?_eq_some found
          have same : f.cookie = cookie := by simpa using List.find?_some found
          exact sound.drop member (undisturbed f member same)
  | peer support =>
      cases stepped
      exact sound.sublist
        ⟨sound.restored.reports, sound.restored.waiting, sound.restored.restores,
          sound.restored.reported⟩
        (sound.ledger.mono (fun _ done => ⟨done.old, done.gone⟩) rfl rfl rfl)
        (List.Sublist.refl _) rfl (.inl ⟨rfl, rfl, rfl, rfl⟩)

end Steps

end Station

/-! ## A response confirmed before the request -/

/-- The header of a P2P public action frame, with its subtype and dialog token. -/
def p2pHeader (subtype dialog : UInt8) : List UInt8 :=
  [0xd0, 0, 0, 0] ++ List.replicate 20 2 ++ [4, 9, 0x50, 0x6f, 0x9a, 9, subtype, dialog]

/-- An invitation response that only gives a status. -/
def answer : List UInt8 :=
  p2pHeader 4 2 ++ [0xdd, 8, 0x50, 0x6f, 0x9a, 9, 0, 1, 0, 0]

end AmlW2.Tx
