import AmlW2.TcpAck.Ownership
import Mathlib.Tactic.ByContra

/-!
# Dropped acknowledgements are covered

An ACK that the filter frees is covered by a newer one of its flow, forwarded or held with its flush
to come.  This rests on the session still being the one that the call has found or allocated, which
the code does not look at again; on the ACK that is flushed, and the one that `aml_start_xmit` is
left with after the filter has freed what it replaces, getting to a queue; and on numbers that are
compared modulo 2^32 staying in order when a held ACK is replaced several times.
-/

namespace AmlW2.TcpAck

theorem u32Before_iff {a b : BitVec 32} : U32Before a b ↔ (b - a).toNat ≤ 2 ^ 31 := by
  rw [U32Before, BitVec.toInt_eq_toNat_cond, BitVec.toNat_sub, BitVec.toNat_sub]
  have := a.isLt
  have := b.isLt
  split <;> omega

/-- Of two numbers one is before the other. -/
theorem U32Before.total {a b : BitVec 32} (not_before : ¬U32Before a b) : U32Before b a := by
  unfold U32Before at *
  grind

/-- The order of numbers is transitive as far as half of them go. -/
theorem U32Before.trans {a b c : BitVec 32}
    (span : (b - a).toNat + (c - b).toNat ≤ 2 ^ 31) : U32Before a c := by
  have steps : c - a = (c - b) + (b - a) := by grind
  rw [u32Before_iff, steps, BitVec.toNat_add]
  exact (Nat.mod_le _ _).trans (Nat.add_comm _ _ ▸ span)

/-- Past the test of the type. -/
def Place.typed : Place → Bool
  | .gate => false
  | .sweep _ => false
  | .adjust => false
  | .classified => false
  | _ => true

/-- Another ACK of the same flow acknowledges as much. -/
structure Covers (a b : Skb) : Prop where
  type : b.type ≠ .none
  flow : b.flow = a.flow
  seq : U32Before a.seq b.seq

instance (a b : Skb) : Decidable (Covers a b) :=
  decidable_of_iff (b.type ≠ .none ∧ b.flow = a.flow ∧ U32Before a.seq b.seq)
    ⟨fun ⟨type, flow, seq⟩ => ⟨type, flow, seq⟩, fun covers =>
      ⟨covers.type, covers.flow, covers.seq⟩⟩

/-- An ACK of a flow with a number. -/
structure Skb.Acks (skb : Skb) (flow : Flow) (seq : BitVec 32) : Prop where
  type : skb.type ≠ .none
  flow : skb.flow = flow
  seq : skb.seq = seq

/-- An ACK covers one of its flow that comes too late for its number. -/
theorem Skb.Acks.covers {skb b : Skb} {seq : BitVec 32} (acks : b.Acks skb.flow seq)
    (late : ¬U32Before seq skb.seq) : Covers skb b :=
  ⟨acks.type, acks.flow, acks.seq ▸ U32Before.total late⟩

/-- The timer is pending, or has expired and its handler is about to run. -/
def TcpSess.Flushes (info : TcpSess) : Prop := info.timer.isSome ∨ info.firing

namespace Filter

variable {s s' : Filter} {t : Nat} {i : SessIdx} {skb a b : Skb} {info : TcpSess}

/-- The skbs queued, by `aml_start_xmit` or by the filter. -/
def forwarded (s : Filter) : List Skb :=
  ((s.sent ++ s.disposed).filter fun d => d.2 = .queued).map Prod.fst

/-- Those, and the ones that `aml_start_xmit` is at work on. -/
def onward (s : Filter) : List Skb := s.sending ++ s.forwarded

/-- The skbs freed by `aml_start_xmit`. -/
def lost (s : Filter) : List Skb := (s.sent.filter fun d => d.2 = .freed).map Prod.fst

/-- The skbs freed by the filter. -/
def dropped (s : Filter) : List Skb := (s.disposed.filter fun d => d.2 = .freed).map Prod.fst

/-- An ACK is covered by a held one. -/
def HeldOver (s : Filter) (a : Skb) : Prop := ∃ i b, (s.info i).skb = some b ∧ Covers a b

/-- A dropped ACK is covered by one that is forwarded or just on its way, or by one that is held. -/
def Sheltered (s : Filter) (a : Skb) : Prop := (∃ b ∈ s.onward, Covers a b) ∨ s.HeldOver a

/-- No ACK is lost. -/
structure Covered (s : Filter) : Prop where
  /-- A held ACK has a busy session and a flush to come. -/
  held : ∀ i skb, (s.info i).skb = some skb → (s.info i).busy ∧ (s.info i).Flushes
  dropped : ∀ a ∈ s.dropped, s.Sheltered a

/-! ## What is asked of a run -/

/-- Time does not pass a timer that is due, and the flush time stays below the session timeout. -/
def Timely (s : Filter) : Event → Prop
  | .tick => ∀ i, (s.info i).firing = false ∧ ∀ expires ∈ (s.info i).timer, s.jiffies < expires
  | .setMaxTimeout time => time < tckSessTimeoutTime
  | _ => True

/-- An ACK that replaces a held one is at most half of the numbers ahead of those that were dropped
and that only the held one covers. -/
def InSequence (s : Filter) (i : SessIdx) (skb : Skb) : Prop :=
  ∀ b, (s.info i).skb = some b → U32Before b.seq skb.seq → ∀ a ∈ s.dropped, Covers a b →
    (∀ c ∈ s.onward, ¬Covers a c) → (b.seq - a.seq).toNat + (skb.seq - b.seq).toNat ≤ 2 ^ 31

/-- The number that an ACK comes too late for is not that of lost ACKs alone, unless the session
holds an ACK. -/
def Numbered (s : Filter) (i : SessIdx) (skb : Skb) : Prop :=
  ¬U32Before (s.info i).seq skb.seq → (s.info i).skb = none →
    ∀ b ∈ s.lost, b.Acks skb.flow (s.info i).seq → ∃ c ∈ s.onward, c.Acks skb.flow (s.info i).seq

/-- No dropped ACK is covered by this one alone. -/
def Spare (s : Filter) (skb : Skb) : Prop :=
  ∀ a ∈ s.dropped, Covers a skb →
    (∃ b ∈ s.sending.erase skb ++ s.forwarded, Covers a b) ∨ s.HeldOver a

/-- A call finds the session as it left it, and an ACK on which others rest is queued. -/
def Orderly (s : Filter) : Event → Prop
  | .go t => ∀ c ∈ s.calls t, match c.place with
      | .replace i _ => s.Matches i c.skb.flow ∧ s.InSequence i c.skb ∧ s.Numbered i c.skb
      | .setup i _ => (s.info i).skb = none
      | _ => True
  | .xmit skb e => e.queues ∨ s.Spare skb
  | .timeout i e => (s.info i).busy → (s.info i).skb.isSome → e.queues
  | .release i => (s.info i).skb = none
  | _ => True

/-! ## What a step carries on -/

/-- What was on its way or lost is so still. -/
structure Carries (s s' : Filter) : Prop where
  onward : ∀ b ∈ s.onward, b ∈ s'.onward
  lost : ∀ b ∈ s.lost, b ∈ s'.lost

theorem Carries.of_eq (sending : s'.sending = s.sending) (sent : s'.sent = s.sent)
    (disposed : s'.disposed = s.disposed) : Carries s s' where
  onward b mem := by rwa [Filter.onward, forwarded, sending, sent, disposed]
  lost b mem := by rwa [Filter.lost, sent]

theorem mem_dropped_kfree {held : Option Skb} :
    a ∈ (s.kfree held).dropped ↔ a ∈ s.dropped ∨ held = some a := by
  cases held <;> simp [dropped, kfree, eq_comm]

theorem onward_kfree (held : Option Skb) : (s.kfree held).onward = s.onward := by
  cases held <;> simp [onward, forwarded, kfree]

theorem mem_onward_pass : b ∈ (s.pass t skb).onward ↔ b ∈ s.onward ∨ b = skb := by
  simp only [onward, pass, List.mem_append, List.mem_singleton]
  tauto

theorem carries_setInfo : Carries s (s.setInfo i info) := .of_eq rfl rfl rfl

theorem Carries.kfree (carries : Carries s s') (held : Option Skb) : Carries s (s'.kfree held) where
  onward b mem := (onward_kfree held).symm ▸ carries.onward b mem
  lost := carries.lost

theorem Carries.pass (carries : Carries s s') : Carries s (s'.pass t skb) where
  onward b mem := mem_onward_pass.mpr (.inl (carries.onward b mem))
  lost := carries.lost

theorem Carries.take (carries : Carries s s') : Carries s (s'.take t skb) :=
  ⟨carries.onward, carries.lost⟩

/-- An skb that gets to its txq has been on its way to it. -/
theorem carries_xmit {e : Xmit} (queues : e.queues) : Carries s (s.xmit skb e) where
  onward b mem := by
    rcases eq_or_ne b skb with rfl | ne
    · simp [onward, forwarded, xmit, queues]
    · rw [onward, List.mem_append] at *
      refine mem.imp (List.mem_erase_of_ne ne).mpr fun sent => ?_
      simp only [forwarded, xmit, List.filter_append, List.map_append, List.mem_append] at *
      tauto
  lost b mem := by
    simpa [lost, xmit, queues] using mem

/-! ## One session -/

/-- A session is in order: its timer is due before its age is, and its number is that of the ACK it
holds or else of one that the filter has let go. -/
structure InOrder (s : Filter) (info : TcpSess) : Prop where
  last : info.lastTime ≤ s.jiffies
  timer : ∀ expires, info.timer = some expires →
    s.jiffies ≤ expires ∧ expires ≤ info.lastTime + s.timeout
  firing : info.firing → s.jiffies ≤ info.lastTime + s.timeout
  held : ∀ skb, info.skb = some skb →
    info.busy ∧ info.Flushes ∧ skb.Acks info.flow info.seq
  newest : info.busy → info.skb = none →
    ∃ b, (b ∈ s.onward ∨ b ∈ s.lost) ∧ b.Acks info.flow info.seq

/-- Being in order depends on the time and on what the filter has let go. -/
theorem InOrder.mono (order : InOrder s info) (jiffies : s'.jiffies = s.jiffies)
    (hz : s'.hz = s.hz)
    (known : ∀ b, b ∈ s.onward ∨ b ∈ s.lost → b ∈ s'.onward ∨ b ∈ s'.lost) : InOrder s' info := by
  have timeout : s'.timeout = s.timeout := by rw [timeout, timeout, hz]
  constructor
  · rw [jiffies]
    exact order.last
  · rw [jiffies, timeout]
    exact order.timer
  · rw [jiffies, timeout]
    exact order.firing
  · exact order.held
  · intro busy empty
    obtain ⟨b, letGo, newest⟩ := order.newest busy empty
    exact ⟨b, known b letGo, newest⟩

theorem Carries.known (carries : Carries s s') (b : Skb) (known : b ∈ s.onward ∨ b ∈ s.lost) :
    b ∈ s'.onward ∨ b ∈ s'.lost :=
  known.imp (carries.onward b) (carries.lost b)

/-- A session that holds an ACK is not old yet. -/
theorem InOrder.young (order : InOrder s info) (held : info.skb = some skb) :
    s.jiffies ≤ info.lastTime + s.timeout := by
  obtain ⟨-, pending | firing, -⟩ := order.held skb held
  · obtain ⟨expires, timer⟩ := Option.isSome_iff_exists.mp pending
    exact (order.timer expires timer).1.trans (order.timer expires timer).2
  · exact order.firing firing

/-- A timer that is pending fits a session used now. -/
theorem InOrder.touch_timer (order : InOrder s info) {expires : Nat}
    (timer : info.timer = some expires) :
    s.jiffies ≤ expires ∧ expires ≤ s.jiffies + s.timeout := by
  have before := order.timer expires timer
  have last := order.last
  omega

/-- A timer that is armed fits a session used now. -/
theorem InOrder.armed_timer (order : InOrder s info)
    (maxTimeout : msecsToJiffies s.hz s.mgr.maxTimeout ≤ s.timeout) {expires : Nat}
    (timer : (s.armed info).timer = some expires) :
    s.jiffies ≤ expires ∧ expires ≤ s.jiffies + s.timeout := by
  cases pending : info.timer with
  | none =>
      rw [armed, pending] at timer
      obtain rfl := Option.some.inj timer
      exact ⟨Nat.le_add_right _ _, Nat.add_le_add_left maxTimeout _⟩
  | some before =>
      rw [armed, pending] at timer
      obtain rfl := Option.some.inj timer
      exact order.touch_timer pending

/-! ## The whole filter -/

/-- The sessions are in order and no ACK is lost. -/
structure Flowing (s : Filter) : Prop where
  sess : ∀ i, InOrder s (s.info i)
  maxTimeout : msecsToJiffies s.hz s.mgr.maxTimeout ≤ s.timeout
  sheltered : ∀ a ∈ s.dropped, s.Sheltered a
  typed : ∀ t, ∀ c ∈ s.calls t, c.place.typed → c.skb.type ≠ .none

theorem Flowing.covered (flowing : Flowing s) : Covered s where
  held i skb held :=
    ⟨((flowing.sess i).held skb held).1, ((flowing.sess i).held skb held).2.1⟩
  dropped := flowing.sheltered

/-- A shelter stays where the sessions but one stay, and what that one covers is sheltered. -/
theorem Sheltered.keep (sheltered : s.Sheltered a)
    (others : ∀ j ≠ i, s'.info j = s.info j) (carries : Carries s s')
    (this : ∀ b, (s.info i).skb = some b → Covers a b → s'.Sheltered a) : s'.Sheltered a := by
  rcases sheltered with ⟨b, sent, covers⟩ | ⟨j, b, held, covers⟩
  · exact .inl ⟨b, carries.onward b sent, covers⟩
  · rcases eq_or_ne j i with rfl | ne
    · exact this b held covers
    · exact .inr ⟨j, b, others j ne ▸ held, covers⟩

/-- A step that leaves the sessions and the clock alone. -/
theorem Flowing.quiet (flowing : Flowing s) (info : s'.info = s.info)
    (jiffies : s'.jiffies = s.jiffies) (hz : s'.hz = s.hz)
    (maxTimeout : s'.mgr.maxTimeout = s.mgr.maxTimeout) (disposed : s'.disposed = s.disposed)
    (carries : Carries s s')
    (typed : ∀ t, ∀ c ∈ s'.calls t, c.place.typed → c.skb.type ≠ .none) : Flowing s' := by
  constructor
  · intro i
    rw [info]
    exact (flowing.sess i).mono jiffies hz carries.known
  · rw [maxTimeout, timeout, hz]
    exact flowing.maxTimeout
  · intro a dropped
    rw [Filter.dropped, disposed] at dropped
    have kept : ∀ j ≠ 0, s'.info j = s.info j := fun j _ => by rw [info]
    exact (flowing.sheltered a dropped).keep kept carries fun b held covers =>
      .inr ⟨0, b, info ▸ held, covers⟩
  · exact typed

/-- A call that goes on. -/
theorem Flowing.goto (flowing : Flowing s) {place : Place}
    (typed : place.typed → skb.type ≠ .none) : Flowing (s.goto t skb place) := by
  refine flowing.quiet rfl rfl rfl rfl rfl (.of_eq rfl rfl rfl) ?_
  intro t' c call
  rcases eq_or_ne t' t with rfl | ne
  · obtain rfl := Option.some.inj ((Function.update_self t' _ s.calls).symm.trans call)
    exact typed
  · exact flowing.typed t' c ((Function.update_of_ne ne _ s.calls).symm.trans call)

theorem typed_return (typed : ∀ t, ∀ c ∈ s.calls t, c.place.typed → c.skb.type ≠ .none) (t : Nat) :
    ∀ t', ∀ c ∈ Function.update s.calls t none t', c.place.typed → c.skb.type ≠ .none := by
  intro t' c call
  rcases eq_or_ne t' t with rfl | ne
  · rw [Function.update_self] at call
    cases call
  · rw [Function.update_of_ne ne] at call
    exact typed t' c call

/-- A call that returns 0. -/
theorem Flowing.pass (flowing : Flowing s) : Flowing (s.pass t skb) :=
  flowing.quiet rfl rfl rfl rfl rfl (Carries.of_eq rfl rfl rfl).pass (typed_return flowing.typed t)

/-- A call that returns 1. -/
theorem Flowing.take (flowing : Flowing s) : Flowing (s.take t skb) :=
  flowing.quiet rfl rfl rfl rfl rfl (.of_eq rfl rfl rfl) (typed_return flowing.typed t)

/-- A session changes, with what it held sheltered. -/
theorem Flowing.update (flowing : Flowing s) (s' : Filter)
    (updated : s'.info = Function.update s.info i info)
    (jiffies : s'.jiffies = s.jiffies) (hz : s'.hz = s.hz)
    (maxTimeout : s'.mgr.maxTimeout = s.mgr.maxTimeout)
    (carries : Carries s s')
    (typed : ∀ t, ∀ c ∈ s'.calls t, c.place.typed → c.skb.type ≠ .none)
    (order : InOrder s' info) (dropped : ∀ a ∈ s'.dropped, a ∈ s.dropped ∨ s'.Sheltered a)
    (held : ∀ a ∈ s.dropped, ∀ b, (s.info i).skb = some b → Covers a b → s'.Sheltered a) :
    Flowing s' := by
  have others : ∀ j ≠ i, s'.info j = s.info j := fun j ne => by
    rw [updated, Function.update_of_ne ne]
  constructor
  · intro j
    rcases eq_or_ne j i with rfl | ne
    · rw [updated, Function.update_self]
      exact order
    · rw [others j ne]
      exact (flowing.sess j).mono jiffies hz carries.known
  · rw [maxTimeout, timeout, hz]
    exact flowing.maxTimeout
  · intro a drop
    rcases dropped a drop with before | sheltered
    · exact (flowing.sheltered a before).keep others carries (held a before)
    · exact sheltered
  · exact typed

/-- A session changes and keeps its skb. -/
theorem Flowing.setInfo (flowing : Flowing s) (same : info.skb = (s.info i).skb)
    (order : InOrder s info) : Flowing (s.setInfo i info) := by
  have carries : Carries s (s.setInfo i info) := carries_setInfo
  apply flowing.update (s.setInfo i info) rfl rfl rfl rfl carries flowing.typed
    (order.mono rfl rfl carries.known) (fun a dropped => .inl dropped)
  intro a _ b held covers
  refine .inr ⟨i, b, ?_, covers⟩
  exact (congrArg TcpSess.skb (Function.update_self i info s.info)).trans (same.trans held)

/-! ## Sections of a call -/

/-- A session that is not old yet when it ages holds nothing. -/
theorem Flowing.ageout (flowing : Flowing s) (i : SessIdx) : Flowing (s.ageout i) := by
  rw [Filter.ageout]
  split
  · rename_i old
    have order := flowing.sess i
    have empty : (s.info i).skb = none := by
      by_contra held
      obtain ⟨skb, held⟩ := Option.ne_none_iff_exists'.mp held
      exact absurd (order.young held) (by omega)
    have aged : Flowing (s.setInfo i { s.info i with busy := false }) := by
      refine flowing.setInfo (by rfl) ⟨order.last, order.timer, order.firing, ?_, ?_⟩
      · intro skb held
        cases empty.symm.trans held
      · intro busy
        cases busy
    exact aged.quiet rfl rfl rfl rfl rfl (.of_eq rfl rfl rfl) aged.typed
  · exact flowing

theorem Flowing.adjustDropCnt (flowing : Flowing s) : Flowing s.adjustDropCnt := by
  rw [Filter.adjustDropCnt]
  split
  · exact flowing.quiet rfl rfl rfl rfl rfl (.of_eq rfl rfl rfl) flowing.typed
  · exact flowing

/-- An ACK that comes too late is covered by the newest of its session. -/
theorem Flowing.stale (flowing : Flowing s) (session : s.Matches i skb.flow)
    (numbered : s.Numbered i skb) (late : ¬U32Before (s.info i).seq skb.seq) :
    s.Sheltered skb := by
  have order := flowing.sess i
  cases empty : (s.info i).skb with
  | none =>
      obtain ⟨b, letGo, newest⟩ := order.newest session.1 empty
      rw [session.2] at newest
      rcases letGo with onward | lost
      · exact .inl ⟨b, onward, newest.covers late⟩
      · obtain ⟨c, onward, newest⟩ := numbered late empty b lost newest
        exact .inl ⟨c, onward, newest.covers late⟩
  | some b =>
      obtain ⟨-, -, newest⟩ := order.held b empty
      rw [session.2] at newest
      exact .inr ⟨i, b, empty, newest.covers late⟩

/-- What the held ACK covers, an ACK in sequence covers as well. -/
theorem Flowing.accept (flowing : Flowing s) (s' : Filter) (session : s.Matches i skb.flow)
    (type : skb.type ≠ .none) (before : U32Before (s.info i).seq skb.seq)
    (sequence : s.InSequence i skb) (carries : Carries s s')
    (covers : ∀ a, Covers a skb → s'.Sheltered a) :
    (∀ a, (s.info i).skb = some a → s'.Sheltered a) ∧
      ∀ a ∈ s.dropped, ∀ b, (s.info i).skb = some b → Covers a b → s'.Sheltered a := by
  constructor
  · intro a held
    obtain ⟨-, -, -, flow, seq⟩ := (flowing.sess i).held a held
    exact covers a ⟨type, (flow.trans session.2).symm, seq ▸ before⟩
  · intro a dropped b held covered
    by_cases sent : ∃ c ∈ s.onward, Covers a c
    · obtain ⟨c, sent, covered⟩ := sent
      exact .inl ⟨c, carries.onward c sent, covered⟩
    · obtain ⟨-, -, -, flow, seq⟩ := (flowing.sess i).held b held
      have span := sequence b held (seq ▸ before) a dropped covered fun c mem covers =>
        sent ⟨c, mem, covers⟩
      exact covers a ⟨type, (flow.trans session.2).symm.trans covered.flow,
        U32Before.trans span⟩

/-- The section of `aml_replace_tcp_ack`, when the session is still the one that was found. -/
theorem Flowing.replace (flowing : Flowing s) (session : s.Matches i skb.flow)
    (isAck : skb.type ≠ .none) (sequence : s.InSequence i skb) (numbered : s.Numbered i skb)
    (t : Nat) (type : AckType) :
    Flowing (s.advance t skb (.replace i type)) := by
  have order := flowing.sess i
  have typed := typed_return flowing.typed t
  obtain ⟨late, ran⟩ | ⟨before, info, accepted, ⟨empty, timer, ran⟩ | ⟨held, timer, ran⟩⟩ :=
    s.replaceTcpAck_cases skb i type
  · rw [advance, ran, if_pos rfl]
    let s' := ((s.setInfo i { s.info i with lastTime := s.jiffies }).kfree (some skb)).take t skb
    have carries : Carries s s' := (carries_setInfo.kfree (some skb)).take
    have stays : ∀ b, (s.info i).skb = some b → (s'.info i).skb = some b := by
      intro b held
      simpa [s', Filter.setInfo, Filter.kfree, Filter.take] using held
    have others : ∀ j ≠ i, s'.info j = s.info j := fun j ne => Function.update_of_ne ne _ _
    have late : s'.Sheltered skb :=
      (flowing.stale session numbered late).keep others carries fun b held covers =>
        .inr ⟨i, b, stays b held, covers⟩
    refine flowing.update s' rfl rfl rfl rfl carries typed ?_ ?_ ?_
    · have touched : InOrder s { s.info i with lastTime := s.jiffies } :=
        ⟨le_rfl, fun _ => order.touch_timer, fun _ => Nat.le_add_right _ _, order.held,
          order.newest⟩
      exact touched.mono rfl rfl carries.known
    · intro a dropped
      rcases (mem_dropped_kfree (s := s)).mp dropped with before | same
      · exact .inl before
      · exact .inr (Option.some.inj same ▸ late)
    · intro a _ b held covers
      exact .inr ⟨i, b, stays b held, covers⟩
  · rw [advance, ran, if_neg Bool.false_ne_true]
    let s' := ((s.setInfo i info).kfree (s.info i).skb).pass t skb
    have carries : Carries s s' := (carries_setInfo.kfree (s.info i).skb).pass
    have newest : skb ∈ s'.onward := mem_onward_pass.mpr (.inr rfl)
    obtain ⟨old, shelters⟩ := flowing.accept s' session isAck before sequence carries
      fun a covers => .inl ⟨skb, newest, covers⟩
    refine flowing.update s' rfl rfl rfl rfl carries typed ?_ ?_ shelters
    · constructor
      · exact accepted.lastTime.le
      · intro expires pending
        rw [accepted.lastTime]
        rcases timer with cancelled | same
        · cases cancelled.symm.trans pending
        · exact order.touch_timer (same.symm.trans pending)
      · intro _
        rw [accepted.lastTime]
        exact Nat.le_add_right _ _
      · intro b held
        cases empty.symm.trans held
      · intro _ _
        exact ⟨skb, .inl newest, isAck, by rw [accepted.flow, session.2], accepted.seq.symm⟩
    · intro a dropped
      exact ((mem_dropped_kfree (s := s)).mp dropped).imp_right (old a)
  · rw [advance, ran, if_pos rfl]
    let s' := ((s.setInfo i info).kfree (s.info i).skb).take t skb
    have carries : Carries s s' := (carries_setInfo.kfree (s.info i).skb).take
    have stored : (s'.info i).skb = some skb := by
      simpa [s', Filter.setInfo, Filter.kfree, Filter.take] using held
    obtain ⟨old, shelters⟩ := flowing.accept s' session isAck before sequence carries
      fun a covers => .inr ⟨i, skb, stored, covers⟩
    refine flowing.update s' rfl rfl rfl rfl carries typed ?_ ?_ shelters
    · constructor
      · exact accepted.lastTime.le
      · intro expires pending
        rw [accepted.lastTime]
        exact order.armed_timer flowing.maxTimeout (timer ▸ pending)
      · intro _
        rw [accepted.lastTime]
        exact Nat.le_add_right _ _
      · intro b holds
        obtain rfl := Option.some.inj (held.symm.trans holds)
        refine ⟨accepted.busy.trans session.1, .inl ?_, isAck, ?_, accepted.seq.symm⟩
        · rw [timer]
          rfl
        · rw [accepted.flow, session.2]
      · intro _ empty
        cases held.symm.trans empty
    · intro a dropped
      exact ((mem_dropped_kfree (s := s)).mp dropped).imp_right (old a)

/-- The section that sets a session up, when it holds nothing. -/
theorem Flowing.setup (flowing : Flowing s) (empty : (s.info i).skb = none)
    (isAck : skb.type ≠ .none) (t : Nat) (dropCnt : BitVec 8) :
    Flowing (s.advance t skb (.setup i dropCnt)) := by
  have order := flowing.sess i
  let s' := (s.setup skb i dropCnt).pass t skb
  have newest : skb ∈ s'.onward := mem_onward_pass.mpr (.inr rfl)
  refine flowing.update s' rfl rfl rfl rfl carries_setInfo.pass (typed_return flowing.typed t) ?_
    (fun a dropped => .inl dropped) ?_
  · constructor
    · exact le_rfl
    · exact fun expires pending => order.armed_timer flowing.maxTimeout pending
    · exact fun _ => Nat.le_add_right _ _
    · intro b held
      cases empty.symm.trans held
    · exact fun _ _ => ⟨skb, .inl newest, isAck, rfl, rfl⟩
  · intro a _ b held
    cases empty.symm.trans held

/-- The rest of the sections. -/
theorem Flowing.advance (flowing : Flowing s) {c : Call} (call : s.calls t = some c)
    (orderly : Orderly s (.go t)) : Flowing (s.advance t c.skb c.place) := by
  have typed := flowing.typed t c call
  have ordered := orderly c call
  obtain ⟨skb, place⟩ := c
  cases place with
  | gate =>
      rw [Filter.advance]
      split
      · have noted : Flowing { s with mgr.lastTime := s.jiffies } :=
          flowing.quiet rfl rfl rfl rfl rfl (.of_eq rfl rfl rfl) flowing.typed
        exact noted.goto fun sweeps => (by cases sweeps)
      · exact flowing.goto fun classified => (by cases classified)
  | sweep i =>
      obtain ⟨i, lt⟩ := i
      cases i with
      | zero => exact (flowing.ageout ⟨0, lt⟩).goto fun adjusts => (by cases adjusts)
      | succ j => exact (flowing.ageout ⟨j + 1, lt⟩).goto fun sweeps => (by cases sweeps)
  | adjust => exact flowing.adjustDropCnt.goto fun classified => (by cases classified)
  | classified =>
      simp only [Filter.advance]
      have scaled : Flowing
          (if skb.winScale ≠ 0 then { s with mgr.winScale := skb.winScale } else s) := by
        split
        · exact flowing.quiet rfl rfl rfl rfl rfl (.of_eq rfl rfl rfl) flowing.typed
        · exact flowing
      by_cases isAck : skb.type = .none
      · rw [if_pos isAck]
        exact scaled.pass
      · rw [if_neg isAck]
        exact scaled.goto fun _ => isAck
  | enabled =>
      rw [Filter.advance]
      split
      · exact flowing.goto fun _ => typed rfl
      · exact flowing.pass
  | find i =>
      rw [Filter.advance]
      split <;> exact flowing.goto fun _ => typed rfl
  | found i =>
      simp only [Filter.advance]
      split
      · have order := flowing.sess i
        have scaled : Flowing (s.setInfo i { s.info i with winScale := s.mgr.winScale }) :=
          flowing.setInfo (by rfl)
            ⟨order.last, order.timer, order.firing, order.held, order.newest⟩
        exact scaled.goto fun _ => typed rfl
      · exact flowing.goto fun _ => typed rfl
  | scaled i => exact flowing.goto fun _ => typed rfl
  | replace i type =>
      obtain ⟨session, sequence, numbered⟩ := ordered
      exact flowing.replace session (typed rfl) sequence numbered t type
  | alloc =>
      rw [Filter.advance]
      split
      · exact flowing.pass
      · split
        · rename_i i _
          have noted : Flowing
              { s with mgr.freeIndex := none, mgr.usedNum := s.mgr.usedNum + 1 } :=
            flowing.quiet rfl rfl rfl rfl rfl (.of_eq rfl rfl rfl) flowing.typed
          exact noted.goto fun _ => typed rfl
        · have locked : Flowing { s with mgr.locked := true } :=
            flowing.quiet rfl rfl rfl rfl rfl (.of_eq rfl rfl rfl) flowing.typed
          exact locked.goto fun _ => typed rfl
  | scan i =>
      rw [Filter.advance]
      repeat' split
      · exact flowing.goto fun _ => typed rfl
      · have unlocked : Flowing { s with mgr.locked := false } :=
          flowing.quiet rfl rfl rfl rfl rfl (.of_eq rfl rfl rfl) flowing.typed
        exact unlocked.pass
      · have noted : Flowing
            { s with
              mgr.freeIndex := none, mgr.usedNum := s.mgr.usedNum + 1, mgr.locked := false } :=
          flowing.quiet rfl rfl rfl rfl rfl (.of_eq rfl rfl rfl) flowing.typed
        exact noted.goto fun _ => typed rfl
  | allocated i => exact flowing.adjustDropCnt.goto fun _ => typed rfl
  | setup i dropCnt => exact flowing.setup ordered (typed rfl) t dropCnt

/-! ## Sending -/

/-- `aml_start_xmit` frees an skb on which no dropped ACK rests. -/
theorem Flowing.lose (flowing : Flowing s) {e : Xmit} (freed : e.queues = false)
    (spare : s.Spare skb) : Flowing (s.xmit skb e) := by
  have onward : (s.xmit skb e).onward = s.sending.erase skb ++ s.forwarded := by
    simp [onward, forwarded, xmit, freed]
  have lost : (s.xmit skb e).lost = s.lost ++ [skb] := by
    simp [lost, xmit, freed]
  have known : ∀ b, b ∈ s.onward ∨ b ∈ s.lost →
      b ∈ (s.xmit skb e).onward ∨ b ∈ (s.xmit skb e).lost := by
    intro b known
    rw [onward, lost]
    rcases eq_or_ne b skb with rfl | ne
    · exact .inr (List.mem_append_right _ (List.mem_singleton_self b))
    · refine known.imp (fun mem => ?_) (List.mem_append_left _)
      exact List.mem_append.mpr
        ((List.mem_append.mp mem).imp_left (List.mem_erase_of_ne ne).mpr)
  refine ⟨fun i => (flowing.sess i).mono rfl rfl known, flowing.maxTimeout, ?_, flowing.typed⟩
  intro a dropped
  rcases flowing.sheltered a dropped with ⟨b, mem, covers⟩ | held
  · rw [Sheltered, onward]
    rcases eq_or_ne b skb with rfl | ne
    · exact spare a dropped covers
    · refine .inl ⟨b, ?_, covers⟩
      exact List.mem_append.mpr
        ((List.mem_append.mp mem).imp_left (List.mem_erase_of_ne ne).mpr)
  · exact .inr held

theorem Flowing.xmit (flowing : Flowing s) {e : Xmit} (rests : e.queues ∨ s.Spare skb) :
    Flowing (s.xmit skb e) := by
  cases queues : e.queues with
  | true =>
      exact flowing.quiet rfl rfl rfl rfl rfl (carries_xmit queues) flowing.typed
  | false => exact flowing.lose queues (rests.resolve_left (by simp [queues]))

/-! ## Timers -/

theorem Flowing.tick (flowing : Flowing s) (timely : Timely s .tick) :
    Flowing { s with jiffies := s.jiffies + 1 } := by
  refine ⟨fun i => ?_, flowing.maxTimeout, flowing.sheltered, flowing.typed⟩
  obtain ⟨quiet, due⟩ := timely i
  have order := flowing.sess i
  refine ⟨order.last.trans (Nat.le_succ _), ?_, ?_, order.held, order.newest⟩
  · intro expires pending
    exact ⟨due expires pending, (order.timer expires pending).2⟩
  · intro firing
    cases quiet.symm.trans firing

theorem Flowing.expire (flowing : Flowing s) {expires : Nat}
    (pending : (s.info i).timer = some expires) :
    Flowing (s.setInfo i { s.info i with timer := none, firing := true }) := by
  have order := flowing.sess i
  refine flowing.setInfo (by rfl) ⟨order.last, ?_, ?_, ?_, order.newest⟩
  · intro expires gone
    cases gone
  · intro _
    exact (order.timer expires pending).1.trans (order.timer expires pending).2
  · intro b held
    obtain ⟨busy, -, newest⟩ := order.held b held
    exact ⟨busy, .inr rfl, newest⟩

theorem sendTcpAck_queues {e : Sending} (queues : e.queues = true) :
    s.sendTcpAck skb e = { s with disposed := s.disposed ++ [(skb, .queued)] } := by
  obtain ⟨⟨⟨header, recovering⟩, mapped⟩, active⟩ :
      ((e.header = true ∧ e.recovering = false) ∧ e.mapped = true) ∧ e.active = true := by
    simpa [Sending.queues] using queues
  simp [sendTcpAck, header, recovering, mapped, active]

theorem Flowing.timeout (flowing : Flowing s) {e : Sending}
    (queues : (s.info i).busy → (s.info i).skb.isSome → e.queues) :
    Flowing (s.tcpAckTimeout i e) := by
  have order := flowing.sess i
  cases held : (s.info i).skb with
  | none =>
      simp only [tcpAckTimeout, held]
      refine flowing.setInfo held.symm ⟨order.last, order.timer, ?_, ?_, fun busy _ =>
        order.newest busy held⟩
      · intro firing
        cases firing
      · intro b holds
        cases holds
  | some skb =>
      obtain ⟨busy, -, acks⟩ := order.held skb held
      simp only [tcpAckTimeout, held, busy, if_true]
      rw [sendTcpAck_queues (queues busy (held ▸ rfl))]
      let info := { s.info i with busy := true, firing := false, skb := none, dropCnt := 0 }
      let s' := { s.setInfo i info with disposed := s.disposed ++ [(skb, Fate.queued)] }
      have sent : ∀ b, b ∈ s'.onward ↔ b ∈ s.onward ∨ b = skb := by
        intro b
        simp [s', onward, forwarded, Filter.setInfo, or_assoc]
      have dropped : s'.dropped = s.dropped := by simp [s', Filter.dropped]
      have newest : skb ∈ s'.onward := (sent skb).mpr (.inr rfl)
      have carries : Carries s s' := ⟨fun b mem => (sent b).mpr (.inl mem), fun _ mem => mem⟩
      refine flowing.update s' rfl rfl rfl rfl carries flowing.typed ?_
        (fun a drop => .inl (dropped ▸ drop)) ?_
      · refine ⟨order.last, order.timer, ?_, ?_, fun _ _ => ⟨skb, .inl newest, acks⟩⟩
        · intro firing
          cases firing
        · intro b holds
          cases holds
      · intro a _ b holds covers
        obtain rfl := Option.some.inj (held.symm.trans holds)
        exact .inl ⟨skb, newest, covers⟩

theorem Flowing.release (flowing : Flowing s) (empty : (s.info i).skb = none) :
    Flowing (s.release i) := by
  have order := flowing.sess i
  rw [Filter.release, empty]
  have released : Flowing (s.setInfo i { s.info i with timer := none, skb := none }) := by
    refine flowing.setInfo empty.symm ⟨order.last, ?_, order.firing, ?_, fun busy _ =>
      order.newest busy empty⟩
    · intro expires gone
      cases gone
    · intro b holds
      cases holds
  exact released.quiet rfl rfl rfl rfl (List.append_nil _)
    (.of_eq rfl rfl (List.append_nil _)) released.typed

/-! ## Runs -/

theorem msecsToJiffies_mono (hz : Nat) {m n : Nat} (le : m ≤ n) :
    msecsToJiffies hz m ≤ msecsToJiffies hz n :=
  Nat.div_le_div_right (Nat.add_le_add_right (Nat.mul_le_mul_right hz le) 999)

theorem flowing_init (usb : Bool) (hz jiffies : Nat) : Flowing (init usb hz jiffies) where
  sess i := by
    refine ⟨le_rfl, ?_, ?_, ?_, ?_⟩
    · intro expires pending
      cases pending
    · intro firing
      cases firing
    · intro skb held
      cases held
    · intro busy
      cases busy
  maxTimeout := msecsToJiffies_mono hz (by decide : maxTcpAckTimeout ≤ tckSessTimeoutTime)
  sheltered a dropped := by cases dropped
  typed t c call := by cases call

theorem step_flowing {e : Event} (flowing : Flowing s) (timely : Timely s e)
    (orderly : Orderly s e) (stepped : s.step e = .ok s') : Flowing s' := by
  cases e with
  | call t skb =>
      simp only [step] at stepped
      split at stepped
      · cases stepped
      · split at stepped
        · cases stepped
          exact flowing.pass
        · cases stepped
          have offered : Flowing { s with owner := Function.update s.owner skb .offered } :=
            flowing.quiet rfl rfl rfl rfl rfl (.of_eq rfl rfl rfl) flowing.typed
          exact offered.goto fun begins => (by cases begins)
  | go t =>
      simp only [step] at stepped
      split at stepped
      · cases stepped
      · rename_i c call
        split at stepped
        · cases stepped
        · cases stepped
          exact flowing.advance call orderly
  | xmit skb e =>
      simp only [step] at stepped
      split at stepped
      · cases stepped
        exact flowing.xmit orderly
      · cases stepped
  | tick =>
      cases stepped
      exact flowing.tick timely
  | expire i =>
      simp only [step] at stepped
      split at stepped
      · cases stepped
      · rename_i expires pending
        split at stepped
        · cases stepped
        · cases stepped
          exact flowing.expire pending
  | timeout i e =>
      simp only [step] at stepped
      split at stepped
      · cases stepped
        exact flowing.timeout orderly
      · cases stepped
  | release i =>
      cases stepped
      exact flowing.release orderly
  | setMaxTimeout time =>
      cases stepped
      refine ⟨fun i => ?_, msecsToJiffies_mono s.hz (Nat.le_of_lt timely), flowing.sheltered,
        flowing.typed⟩
      exact (flowing.sess i).mono rfl rfl fun _ known => known
  | setTcpAckAuto trafficBusy =>
      cases stepped
      rw [setTcpAckAuto]
      split
      · exact flowing.quiet rfl rfl rfl rfl rfl (.of_eq rfl rfl rfl) flowing.typed
      · exact flowing
  | setMaxDropNum num =>
      cases stepped
      rw [setMaxDropNum]
      split <;> exact flowing.quiet rfl rfl rfl rfl rfl (.of_eq rfl rfl rfl) flowing.typed
  | setTcpDelayAck force minSize =>
      cases stepped
      exact flowing.quiet rfl rfl rfl rfl rfl (.of_eq rfl rfl rfl) flowing.typed
  | stop =>
      cases stepped
      exact flowing.quiet rfl rfl rfl rfl rfl (.of_eq rfl rfl rfl) flowing.typed

/-- No ACK is lost in a run whose timers are timely and whose calls find their sessions in order. -/
theorem covered_of_orderly (usb : Bool) (hz jiffies : Nat) (events : List Event)
    (timely : Run.Guarded step Timely events (init usb hz jiffies))
    (orderly : Run.Guarded step Orderly events (init usb hz jiffies)) :
    Run.Throughout step Covered events (init usb hz jiffies) := by
  have preserved : ∀ s e s', Flowing s → True → Timely s e ∧ Orderly s e → step s e = .ok s' →
      Flowing s' :=
    fun _ _ _ flowing _ meets stepped => step_flowing flowing meets.1 meets.2 stepped
  exact (timely.and orderly).throughout preserved (fun _ flowing => flowing.covered)
    (fun _ _ => trivial) (flowing_init usb hz jiffies)

/-- Whether time may pass, where no timer is set. -/
def timelyTest (s : Filter) : Event → Bool
  | .tick => (List.range tcpSessNum).all fun k =>
      !(s.info (.ofNat tcpSessNum k)).firing && (s.info (.ofNat tcpSessNum k)).timer.isNone
  | .setMaxTimeout time => time < tckSessTimeoutTime
  | _ => true

theorem timely_of_test {e : Event} (passed : s.timelyTest e = true) : Timely s e := by
  cases e with
  | tick =>
      intro i
      have idle := List.all_eq_true.mp passed i (List.mem_range.mpr i.isLt)
      rw [Fin.ofNat_val_eq_self] at idle
      obtain ⟨quiet, empty⟩ : (s.info i).firing = false ∧ (s.info i).timer = none := by
        simpa using idle
      exact ⟨quiet, fun expires pending => by cases empty.symm.trans pending⟩
  | setMaxTimeout time => exact (of_decide_eq_true passed : time < tckSessTimeoutTime)
  | _ => trivial

/-- Whether a step is in order, where nothing has been dropped or lost yet. -/
def orderlyTest (s : Filter) : Event → Bool
  | .go t =>
      match s.calls t with
      | none => true
      | some c =>
          match c.place with
          | .replace i _ => s.Matches i c.skb.flow && s.dropped.isEmpty && s.lost.isEmpty
          | .setup i _ => (s.info i).skb.isNone
          | _ => true
  | .xmit _ e => e.queues
  | .timeout _ e => e.queues
  | .release _ => false
  | _ => true

theorem orderly_of_test {e : Event} (passed : s.orderlyTest e = true) : Orderly s e := by
  cases e with
  | go t =>
      rintro ⟨skb, place⟩ call
      rw [Option.mem_def] at call
      simp only [orderlyTest, call] at passed
      cases place with
      | replace i type =>
          obtain ⟨fresh, kept⟩ := Bool.and_eq_true_iff.mp passed
          obtain ⟨session, fresh⟩ := Bool.and_eq_true_iff.mp fresh
          refine ⟨of_decide_eq_true session, fun _ _ _ a dropped => ?_, fun _ _ b lost => ?_⟩
          · rw [List.isEmpty_iff.mp fresh] at dropped
            cases dropped
          · rw [List.isEmpty_iff.mp kept] at lost
            cases lost
      | setup i dropCnt => exact Option.isNone_iff_eq_none.mp passed
      | _ => trivial
  | xmit skb e => exact .inl passed
  | timeout i e => exact fun _ _ => passed
  | release i => cases passed
  | _ => trivial

/-- Two ACKs of a session are queued, the third is held, the fourth replaces it, and the timer sends
that one. -/
def flushed : List Event :=
  [.setMaxTimeout 0, .setTcpDelayAck .enable 0, .call 0 (pureAck 1 1000)] ++
    List.replicate 134 (.go 0) ++ .call 0 (pureAck 2 2000) :: List.replicate 7 (.go 0) ++
    [.xmit (pureAck 1 1000) ⟨true, false, true, true, true⟩,
      .xmit (pureAck 2 2000) ⟨true, true, false, false, false⟩] ++
    .call 0 (pureAck 3 3000) :: List.replicate 7 (.go 0) ++
    .call 0 (pureAck 4 4000) :: List.replicate 7 (.go 0) ++
    [.expire 0, .timeout 0 ⟨true, false, true, true⟩]

theorem flushed_covered : Run.Throughout step Covered flushed (init true 1000 0) :=
  covered_of_orderly true 1000 0 flushed
    (Run.guarded_of_check (fun _ _ => timely_of_test)
      (show Run.check step timelyTest flushed (init true 1000 0) = true by decide +kernel))
    (Run.guarded_of_check (fun _ _ => orderly_of_test)
      (show Run.check step orderlyTest flushed (init true 1000 0) = true by decide +kernel))

/-! ## A session that ages under a call -/

/-- A call finds a session that has been idle for long, another call ages it at the next tick, and
the first holds its ACK there. -/
def agedUnderCall : List Event :=
  [.setTcpDelayAck .enable 0, .call 0 (pureAck 1 1000)] ++ List.replicate 134 (.go 0) ++
    .call 0 (pureAck 2 2000) :: List.replicate 7 (.go 0) ++ List.replicate 100 .tick ++
    .call 0 (pureAck 3 3000) :: List.replicate 6 (.go 0) ++
    [.tick, .call 1 (pureAck 4 4000)] ++ List.replicate 129 (.go 1) ++ [.go 0]

/-- An ACK is held in a session that is not busy: its timer will not send it. -/
theorem agedUnderCall_stranded :
    Run.Guarded step Timely agedUnderCall (init true 100 0) ∧
      ∃ s, Run.run step agedUnderCall (init true 100 0) = .ok s ∧
        (s.info 0).skb = some (pureAck 3 3000) ∧ ¬Covered s := by
  constructor
  · exact Run.guarded_of_check (fun _ _ => timely_of_test)
      (show Run.check step timelyTest agedUnderCall (init true 100 0) = true by decide +kernel)
  · obtain ⟨s, ran, session⟩ := Run.ends_of_toOption
      (show (Run.run step agedUnderCall (init true 100 0)).toOption.map
          (fun s => ((s.info 0).skb, (s.info 0).busy)) = some (some (pureAck 3 3000), false) by
        decide +kernel)
    obtain ⟨held, free⟩ := Prod.mk.inj session
    refine ⟨s, ran, held, fun covered => ?_⟩
    have busy := (covered.held 0 (pureAck 3 3000) held).1
    cases free.symm.trans busy

end Filter

end AmlW2.TcpAck
