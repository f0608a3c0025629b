import AmlW2.Lib.Custody
import AmlW2.TcpAck.Filter

/-!
# Ownership of the buffers

An skb that the filter has taken is held by one session, or has been queued or freed once; one that
it has not taken it neither holds nor frees.  A held ACK is lost where `aml_send_tcp_ack` gets no
memory for its header: the exit taken then frees an skb that has not been looked up yet.
-/

namespace AmlW2.TcpAck

namespace Filter

variable {s s' : Filter} {t : Nat} {i : SessIdx} {skb : Skb} {info : TcpSess}

/-- The filter as a custody of skbs. -/
def custody (s : Filter) : Custody SessIdx Skb where
  slot i := (s.info i).skb
  gone := s.disposed.map Prod.fst
  taken := { skb | s.owner skb = .filter }

theorem custody_setInfo : (s.setInfo i info).custody =
    { s.custody with slot := Function.update s.custody.slot i info.skb } := by
  refine Custody.ext ?_ rfl rfl
  funext j
  rcases eq_or_ne j i with rfl | ne
  · simp [custody, setInfo]
  · simp [custody, setInfo, ne]

/-- A session keeps its skb. -/
theorem custody_setInfo_same (same : info.skb = (s.info i).skb) :
    (s.setInfo i info).custody = s.custody := by
  rw [custody_setInfo, same]
  exact Custody.ext (Function.update_eq_self i s.custody.slot) rfl rfl

theorem custody_kfree (held : Option Skb) :
    (s.kfree held).custody = { s.custody with gone := s.custody.gone ++ held.toList } := by
  refine Custody.ext rfl ?_ rfl
  cases held <;> simp [custody, kfree]

/-- An skb that the filter has not taken changes hands among the others. -/
theorem taken_update {owner : Owner} (others : s.owner skb ≠ .filter) (ne : owner ≠ .filter) :
    { other | Function.update s.owner skb owner other = .filter } = s.custody.taken := by
  ext other
  rcases eq_or_ne other skb with rfl | elsewhere
  · simp [custody, others, ne]
  · simp [custody, elsewhere]

theorem custody_pass (others : s.owner skb ≠ .filter) : (s.pass t skb).custody = s.custody :=
  Custody.ext rfl rfl (taken_update others Owner.noConfusion)

theorem custody_take :
    (s.take t skb).custody = { s.custody with taken := insert skb s.custody.taken } := by
  refine Custody.ext rfl rfl ?_
  ext other
  rcases eq_or_ne other skb with rfl | ne
  · simp [custody, take]
  · simp [custody, take, ne]

/-! ## Calls in progress -/

/-- Each call in progress works on an skb of its own that has been offered. -/
structure Offered (s : Filter) : Prop where
  offered : ∀ {t c}, s.calls t = some c → s.owner c.skb = .offered
  alone : ∀ {t t' c c'}, s.calls t = some c → s.calls t' = some c' → c.skb = c'.skb → t = t'

/-- What a section of a call does to the calls: it goes on, or returns. -/
def Proceeds (s s' : Filter) (t : Nat) (skb : Skb) : Prop :=
  (∃ place, s'.calls = Function.update s.calls t (some ⟨skb, place⟩) ∧ s'.owner = s.owner) ∨
    ∃ owner, s'.calls = Function.update s.calls t none ∧
      s'.owner = Function.update s.owner skb owner

theorem proceeds_goto {place : Place} (calls : s'.calls = s.calls) (owner : s'.owner = s.owner) :
    Proceeds s (s'.goto t skb place) t skb :=
  .inl ⟨place, calls ▸ rfl, owner⟩

theorem proceeds_pass (calls : s'.calls = s.calls) (owner : s'.owner = s.owner) :
    Proceeds s (s'.pass t skb) t skb :=
  .inr ⟨.caller, calls ▸ rfl, owner ▸ rfl⟩

theorem proceeds_take (calls : s'.calls = s.calls) (owner : s'.owner = s.owner) :
    Proceeds s (s'.take t skb) t skb :=
  .inr ⟨.filter, calls ▸ rfl, owner ▸ rfl⟩

theorem calls_ageout : (s.ageout i).calls = s.calls ∧ (s.ageout i).owner = s.owner := by
  rw [ageout]
  split <;> exact ⟨rfl, rfl⟩

theorem calls_adjustDropCnt :
    s.adjustDropCnt.calls = s.calls ∧ s.adjustDropCnt.owner = s.owner := by
  rw [adjustDropCnt]
  split <;> exact ⟨rfl, rfl⟩

theorem calls_replaceTcpAck {type : AckType} :
    (s.replaceTcpAck skb i type).1.calls = s.calls ∧
      (s.replaceTcpAck skb i type).1.owner = s.owner := by
  obtain ⟨-, ran⟩ | ⟨-, info, -, ⟨-, -, ran⟩ | ⟨-, -, ran⟩⟩ := s.replaceTcpAck_cases skb i type
  all_goals
    rw [ran]
    exact ⟨rfl, rfl⟩

theorem advance_proceeds (place : Place) : Proceeds s (s.advance t skb place) t skb := by
  cases place with
  | gate =>
      rw [advance]
      split <;> exact proceeds_goto rfl rfl
  | sweep i => exact proceeds_goto calls_ageout.1 calls_ageout.2
  | adjust => exact proceeds_goto calls_adjustDropCnt.1 calls_adjustDropCnt.2
  | classified =>
      simp only [advance]
      repeat' split
      · exact proceeds_pass rfl rfl
      · exact proceeds_pass rfl rfl
      · exact proceeds_goto rfl rfl
      · exact proceeds_goto rfl rfl
  | enabled =>
      rw [advance]
      split
      · exact proceeds_goto rfl rfl
      · exact proceeds_pass rfl rfl
  | find i =>
      rw [advance]
      split <;> exact proceeds_goto rfl rfl
  | found i =>
      simp only [advance]
      split <;> exact proceeds_goto rfl rfl
  | scaled i => exact proceeds_goto rfl rfl
  | replace i type =>
      rw [advance]
      split
      · exact proceeds_take calls_replaceTcpAck.1 calls_replaceTcpAck.2
      · exact proceeds_pass calls_replaceTcpAck.1 calls_replaceTcpAck.2
  | alloc =>
      rw [advance]
      split
      · exact proceeds_pass rfl rfl
      · split <;> exact proceeds_goto rfl rfl
  | scan i =>
      rw [advance]
      repeat' split
      · exact proceeds_goto rfl rfl
      · exact proceeds_pass rfl rfl
      · exact proceeds_goto rfl rfl
  | allocated i => exact proceeds_goto calls_adjustDropCnt.1 calls_adjustDropCnt.2
  | setup i dropCnt => exact proceeds_pass rfl rfl

theorem Offered.proceeds {c : Call} (held : Offered s) (call : s.calls t = some c)
    (proceeds : Proceeds s s' t c.skb) : Offered s' := by
  have elsewhere : ∀ {t' c'}, t' ≠ t → s.calls t' = some c' → c'.skb ≠ c.skb := by
    intro t' c' ne call' same
    exact ne (held.alone call' call same)
  obtain ⟨place, calls, owner⟩ | ⟨o, calls, owner⟩ := proceeds
  · have backed : ∀ {t' c'}, s'.calls t' = some c' →
        ∃ old, s.calls t' = some old ∧ old.skb = c'.skb := by
      intro t' c' call'
      rw [calls] at call'
      rcases eq_or_ne t' t with rfl | ne
      · rw [Function.update_self] at call'
        obtain rfl := Option.some.inj call'
        exact ⟨c, call, rfl⟩
      · rw [Function.update_of_ne ne] at call'
        exact ⟨c', call', rfl⟩
    constructor
    · intro t' c' call'
      obtain ⟨old, call', same⟩ := backed call'
      rw [owner, ← same]
      exact held.offered call'
    · intro t₁ t₂ c₁ c₂ first second same
      obtain ⟨old₁, first, same₁⟩ := backed first
      obtain ⟨old₂, second, same₂⟩ := backed second
      exact held.alone first second (by rw [same₁, same₂, same])
  · have kept : ∀ {t' c'}, s'.calls t' = some c' → t' ≠ t ∧ s.calls t' = some c' := by
      intro t' c' call'
      rw [calls] at call'
      rcases eq_or_ne t' t with rfl | ne
      · rw [Function.update_self] at call'
        cases call'
      · rw [Function.update_of_ne ne] at call'
        exact ⟨ne, call'⟩
    constructor
    · intro t' c' call'
      obtain ⟨ne, call'⟩ := kept call'
      rw [owner, Function.update_of_ne (elsewhere ne call')]
      exact held.offered call'
    · intro t₁ t₂ c₁ c₂ first second
      exact held.alone (kept first).2 (kept second).2

/-! ## Custody over a step -/

theorem custody_replace (empty : info.skb = none) :
    ((s.setInfo i info).kfree (s.info i).skb).custody = s.custody.clear i := by
  rw [custody_kfree, custody_setInfo, empty]
  rfl

/-- What `aml_replace_tcp_ack` does with the skb it is given and with the one held. -/
theorem replaceTcpAck_custody (s : Filter) (skb : Skb) (i : SessIdx) (type : AckType) :
    ((s.replaceTcpAck skb i type).2 = false ∧
      (s.replaceTcpAck skb i type).1.custody = s.custody.clear i) ∨
    ((s.replaceTcpAck skb i type).2 = true ∧
      ((∀ t, ((s.replaceTcpAck skb i type).1.take t skb).custody = s.custody.discard skb) ∨
        ∀ t, ((s.replaceTcpAck skb i type).1.take t skb).custody =
          (s.custody.clear i).fill i skb)) := by
  obtain ⟨-, ran⟩ | ⟨-, info, -, ⟨empty, -, ran⟩ | ⟨held, -, ran⟩⟩ :=
    s.replaceTcpAck_cases skb i type
  · rw [ran]
    refine .inr ⟨rfl, .inl fun t => ?_⟩
    rw [custody_take, custody_kfree, custody_setInfo_same (by rfl)]
    rfl
  · rw [ran]
    exact .inl ⟨rfl, custody_replace empty⟩
  · rw [ran]
    refine .inr ⟨rfl, .inr fun t => ?_⟩
    rw [custody_take, custody_kfree, custody_setInfo, held]
    exact Custody.ext (Function.update_idem (a := i) _ _ s.custody.slot).symm rfl rfl

/-- A section of a call keeps every item in custody. -/
theorem advance_sound {place : Place} (sound : s.custody.Sound) (mine : s.owner skb = .offered) :
    (s.advance t skb place).custody.Sound := by
  have others : s.owner skb ≠ .filter := by simp [mine]
  have fresh : skb ∉ s.custody.taken := others
  cases place with
  | gate =>
      rw [advance]
      split <;> exact sound
  | sweep i =>
      change (s.ageout i).custody.Sound
      rw [ageout]
      split
      · change (s.setInfo i { s.info i with busy := false }).custody.Sound
        rwa [custody_setInfo_same (by rfl)]
      · exact sound
  | adjust =>
      rw [advance, adjustDropCnt]
      split <;> exact sound
  | classified =>
      simp only [advance]
      repeat' split
      · rwa [custody_pass (by exact others)]
      · rwa [custody_pass others]
      · exact sound
      · exact sound
  | enabled =>
      rw [advance]
      split
      · exact sound
      · rwa [custody_pass others]
  | find i =>
      rw [advance]
      split <;> exact sound
  | found i =>
      simp only [advance]
      split
      · change (s.setInfo i { s.info i with winScale := s.mgr.winScale }).custody.Sound
        rwa [custody_setInfo_same (by rfl)]
      · exact sound
  | scaled i => exact sound
  | replace i type =>
      rw [advance]
      have owner : (s.replaceTcpAck skb i type).1.owner = s.owner := calls_replaceTcpAck.2
      obtain ⟨ret, cleared⟩ | ⟨ret, discarded | filled⟩ := s.replaceTcpAck_custody skb i type
      · rw [if_neg (by simp [ret]), custody_pass (by rwa [owner]), cleared]
        exact sound.clear i
      · rw [if_pos ret, discarded]
        exact sound.discard fresh
      · rw [if_pos ret, filled]
        exact (sound.clear i).fill (by simp [Custody.clear]) fresh
  | alloc =>
      rw [advance]
      split
      · rwa [custody_pass others]
      · split <;> exact sound
  | scan i =>
      rw [advance]
      repeat' split
      · exact sound
      · rwa [custody_pass (by exact others)]
      · exact sound
  | allocated i =>
      rw [advance, adjustDropCnt]
      split <;> exact sound
  | setup i dropCnt =>
      rw [advance, custody_pass (by exact others), setup,
        custody_setInfo_same (by rfl)]
      exact sound

/-- The handler of a timer finds memory for the header of what it sends. -/
def HeaderAllocated (s : Filter) : Event → Prop
  | .timeout i e => (s.info i).firing ∧ (s.info i).busy ∧ (s.info i).skb.isSome → e.header
  | _ => True

theorem custody_sendTcpAck {e : Sending} (header : e.header = true) :
    (s.sendTcpAck skb e).custody = { s.custody with gone := s.custody.gone ++ [skb] } := by
  have freed := custody_kfree (s := s) (some skb)
  rw [sendTcpAck, if_neg (by simp [header])]
  repeat' split
  · exact freed
  · exact freed
  · exact freed
  · exact Custody.ext rfl (by simp [custody]) rfl

theorem custody_setInfo_none (empty : info.skb = none) :
    (s.setInfo i info).custody = s.custody.lose i := by
  rw [custody_setInfo, empty]
  rfl

/-- What the handler of a timer does with the skb held by a busy session. -/
theorem tcpAckTimeout_custody {e : Sending} (busy : (s.info i).busy = true)
    (held : (s.info i).skb = some skb) :
    (s.tcpAckTimeout i e).custody = if e.header then s.custody.clear i else s.custody.lose i := by
  simp only [tcpAckTimeout, held, busy, if_true]
  split
  · rename_i header
    rw [custody_sendTcpAck header, custody_setInfo_none (by rfl)]
    refine Custody.ext rfl ?_ rfl
    simp [Custody.lose, Custody.clear, custody, held]
  · rename_i header
    rw [sendTcpAck, if_pos (by simpa using header), custody_kfree, custody_setInfo_none (by rfl)]
    exact Custody.ext rfl (List.append_nil _) rfl

/-- A handler with nothing to send keeps every item in custody. -/
theorem tcpAckTimeout_custody_idle {e : Sending}
    (idle : ¬((s.info i).busy = true ∧ (s.info i).skb.isSome = true)) :
    (s.tcpAckTimeout i e).custody = s.custody := by
  rw [tcpAckTimeout]
  cases held : (s.info i).skb with
  | none =>
      simp only [held]
      exact custody_setInfo_same (held ▸ rfl)
  | some skb =>
      have free : (s.info i).busy = false := by simpa [held] using idle
      simp only [held, free]
      exact custody_setInfo_same held.symm

/-! ## Custody over a run -/

theorem Offered.of_same (held : Offered s) (calls : s'.calls = s.calls)
    (owner : s'.owner = s.owner) : Offered s' where
  offered call := by
    rw [owner]
    exact held.offered (calls ▸ call)
  alone first second := held.alone (calls ▸ first) (calls ▸ second)

/-- A call that returns at once. -/
theorem Offered.pass (held : Offered s) (mine : s.owner skb = .caller) (idle : s.calls t = none) :
    Offered (s.pass t skb) := by
  have same : (s.pass t skb).calls = s.calls := by
    rw [Filter.pass, ← idle, Function.update_eq_self]
  refine held.of_same same ?_
  rw [Filter.pass, ← mine, Function.update_eq_self]

/-- A call that begins. -/
theorem Offered.call (held : Offered s) (mine : s.owner skb = .caller) {place : Place} :
    Offered ({ s with owner := Function.update s.owner skb .offered }.goto t skb place) := by
  have elsewhere : ∀ {t' c}, s.calls t' = some c → c.skb ≠ skb := by
    rintro t' c call rfl
    cases mine.symm.trans (held.offered call)
  have backed : ∀ {t' c}, Function.update s.calls t (some ⟨skb, place⟩) t' = some c →
      t' = t ∧ c.skb = skb ∨ t' ≠ t ∧ s.calls t' = some c := by
    intro t' c call
    rcases eq_or_ne t' t with rfl | ne
    · rw [Function.update_self] at call
      exact .inl ⟨rfl, Option.some.inj call ▸ rfl⟩
    · rw [Function.update_of_ne ne] at call
      exact .inr ⟨ne, call⟩
  constructor
  · intro t' c call
    rcases backed call with ⟨-, same⟩ | ⟨-, call⟩
    · exact same ▸ Function.update_self skb _ s.owner
    · exact (Function.update_of_ne (elsewhere call) _ _).trans (held.offered call)
  · intro t₁ t₂ c₁ c₂ first second same
    rcases backed first with ⟨at₁, mine₁⟩ | ⟨-, call₁⟩
    · rcases backed second with ⟨at₂, -⟩ | ⟨-, call₂⟩
      · exact at₁.trans at₂.symm
      · exact absurd (same ▸ mine₁) (elsewhere call₂)
    · rcases backed second with ⟨-, mine₂⟩ | ⟨-, call₂⟩
      · exact absurd (same.trans mine₂) (elsewhere call₁)
      · exact held.alone call₁ call₂ same

/-- The calls are at work on what they are offered, and every skb taken is accounted for. -/
structure Kept (s : Filter) : Prop where
  offered : Offered s
  sound : s.custody.Sound

theorem kept_init (usb : Bool) (hz jiffies : Nat) : Kept (init usb hz jiffies) where
  offered := ⟨fun call => (by cases call), fun call => (by cases call)⟩
  sound :=
    { distinct := fun slot => (by cases slot)
      kept := fun slot => (by cases slot)
      once := List.nodup_nil
      mem_taken := fun skb => by simp [custody, init] }

theorem calls_tcpAckTimeout {e : Sending} :
    (s.tcpAckTimeout i e).calls = s.calls ∧ (s.tcpAckTimeout i e).owner = s.owner := by
  simp only [tcpAckTimeout, sendTcpAck]
  repeat' split
  all_goals exact ⟨rfl, rfl⟩

/-- A step whose header is allocated keeps every skb accounted for. -/
theorem step_kept {e : Event} (kept : Kept s) (header : HeaderAllocated s e)
    (stepped : s.step e = .ok s') : Kept s' := by
  cases e with
  | call t skb =>
      simp only [step] at stepped
      by_cases refused : (s.calls t).isSome ∨ s.owner skb ≠ .caller
      · rw [if_pos refused] at stepped
        cases stepped
      · rw [if_neg refused] at stepped
        have idle : s.calls t = none := by simpa using fun some => refused (.inl some)
        have mine : s.owner skb = .caller := not_not.mp fun ne => refused (.inr ne)
        have others : s.owner skb ≠ .filter := by simp [mine]
        split at stepped
        · cases stepped
          exact ⟨kept.offered.pass mine idle, (custody_pass others).symm ▸ kept.sound⟩
        · cases stepped
          refine ⟨kept.offered.call mine, ?_⟩
          have same : ({ s with owner := Function.update s.owner skb .offered }.goto t skb
              .gate).custody = s.custody :=
            Custody.ext rfl rfl (taken_update others Owner.noConfusion)
          exact same ▸ kept.sound
  | go t =>
      simp only [step] at stepped
      split at stepped
      · cases stepped
      · rename_i c call
        split at stepped
        · cases stepped
        · cases stepped
          exact ⟨kept.offered.proceeds call (advance_proceeds c.place),
            advance_sound kept.sound (kept.offered.offered call)⟩
  | xmit skb e =>
      simp only [step] at stepped
      split at stepped
      · cases stepped
        exact ⟨kept.offered.of_same rfl rfl, kept.sound⟩
      · cases stepped
  | timeout i e =>
      simp only [step] at stepped
      split at stepped
      · cases stepped
        rename_i firing
        refine ⟨kept.offered.of_same calls_tcpAckTimeout.1 calls_tcpAckTimeout.2, ?_⟩
        by_cases sends : (s.info i).busy = true ∧ (s.info i).skb.isSome = true
        · obtain ⟨skb, held⟩ := Option.isSome_iff_exists.mp sends.2
          rw [tcpAckTimeout_custody sends.1 held, if_pos (header ⟨firing, sends⟩)]
          exact kept.sound.clear i
        · rw [tcpAckTimeout_custody_idle sends]
          exact kept.sound
      · cases stepped
  | expire i =>
      simp only [step] at stepped
      split at stepped
      · cases stepped
      · split at stepped
        · cases stepped
        · cases stepped
          refine ⟨kept.offered.of_same rfl rfl, ?_⟩
          rw [custody_setInfo_same (by rfl)]
          exact kept.sound
  | release i =>
      cases stepped
      refine ⟨kept.offered.of_same rfl rfl, ?_⟩
      rw [release, custody_replace (by rfl)]
      exact kept.sound.clear i
  | setTcpAckAuto trafficBusy =>
      cases stepped
      rw [setTcpAckAuto]
      split <;> exact ⟨kept.offered.of_same rfl rfl, kept.sound⟩
  | setMaxDropNum num =>
      cases stepped
      rw [setMaxDropNum]
      split <;> exact ⟨kept.offered.of_same rfl rfl, kept.sound⟩
  | tick =>
      cases stepped
      exact ⟨kept.offered.of_same rfl rfl, kept.sound⟩
  | setTcpDelayAck force minSize =>
      cases stepped
      exact ⟨kept.offered.of_same rfl rfl, kept.sound⟩
  | setMaxTimeout time =>
      cases stepped
      exact ⟨kept.offered.of_same rfl rfl, kept.sound⟩
  | stop =>
      cases stepped
      exact ⟨kept.offered.of_same rfl rfl, kept.sound⟩

/-- Each skb that the filter took is held by one session, or has been queued or freed once, and
each other skb it neither holds nor has queued or freed. -/
structure OwnedOnce (s : Filter) : Prop where
  taken : ∀ skb, s.owner skb = .filter →
    (∃! i, (s.info i).skb = some skb) ∧ (s.disposed.map Prod.fst).count skb = 0 ∨
      (∀ i, (s.info i).skb ≠ some skb) ∧ (s.disposed.map Prod.fst).count skb = 1
  others : ∀ skb, s.owner skb ≠ .filter →
    (∀ i, (s.info i).skb ≠ some skb) ∧ (s.disposed.map Prod.fst).count skb = 0

theorem sound_iff_ownedOnce : s.custody.Sound ↔ OwnedOnce s :=
  Custody.sound_iff.trans ⟨fun ⟨taken, others⟩ => ⟨taken, others⟩, fun owned =>
    ⟨owned.taken, owned.others⟩⟩

/-- Every skb that the filter takes is queued or freed once exactly in the runs in which the header
of every ACK sent is allocated. -/
theorem ownedOnce_iff_allocated (usb : Bool) (hz jiffies : Nat) (events : List Event) :
    Run.Throughout step OwnedOnce events (init usb hz jiffies) ↔
      Run.Guarded step HeaderAllocated events (init usb hz jiffies) := by
  have preserved : ∀ s e s', Kept s → True → HeaderAllocated s e → step s e = .ok s' → Kept s' :=
    fun _ _ _ kept _ header stepped => step_kept kept header stepped
  have sound : ∀ s, Kept s → OwnedOnce s := fun s kept => sound_iff_ownedOnce.mp kept.sound
  have sharp : ∀ s e, Kept s → True → ¬HeaderAllocated s e →
      ∃ s', step s e = .ok s' ∧ ¬OwnedOnce s' := by
    intro s e kept _ missing
    cases e with
    | timeout i e =>
        simp only [HeaderAllocated, Classical.not_imp] at missing
        obtain ⟨⟨firing, busy, some⟩, header⟩ := missing
        obtain ⟨skb, held⟩ := Option.isSome_iff_exists.mp some
        refine ⟨s.tcpAckTimeout i e, if_pos firing, fun owned => ?_⟩
        have sound := sound_iff_ownedOnce.mpr owned
        rw [tcpAckTimeout_custody busy held, if_neg header] at sound
        exact kept.sound.not_lose held sound
    | _ => exact absurd trivial missing
  exact Run.throughout_iff_guarded preserved sound sharp (fun _ _ => trivial)
    (kept_init usb hz jiffies)

/-! ## A held ACK that is lost -/

/-- A pure ACK of one flow, with the whole window. -/
def pureAck (id : Nat) (seq : BitVec 32) : Skb where
  id
  len := 52
  type := .ack
  flow := ⟨5001, 40000, 0xC0A80102, 0xC0A80101⟩
  seq
  win := 65535
  winScale := 0

/-- On USB, the third ACK of a session is held, and its timer expires. -/
def held : List Event :=
  [.setTcpDelayAck .enable 0, .call 0 (pureAck 1 1000)] ++ List.replicate 134 (.go 0) ++
    .call 0 (pureAck 2 2000) :: List.replicate 7 (.go 0) ++
    .call 0 (pureAck 3 3000) :: List.replicate 7 (.go 0) ++ List.replicate 30 .tick ++ [.expire 0]

/-- The handler of the timer gets no memory for the header: the ACK is neither queued nor freed, and
no session holds it any more. -/
theorem unallocated_lost : ∃ s, Run.run step (held ++ [.timeout 0 ⟨false, false, true, true⟩])
    (init true 1000 0) = .ok s ∧ s.owner (pureAck 3 3000) = .filter ∧ ¬OwnedOnce s := by
  obtain ⟨s, ran, session⟩ := Run.ends_of_toOption
    (show (Run.run step held (init true 1000 0)).toOption.map
        (fun s => ((s.info 0).firing, (s.info 0).busy, (s.info 0).skb, s.owner (pureAck 3 3000))) =
          some (true, true, some (pureAck 3 3000), .filter) by
      decide +kernel)
  simp only [Prod.mk.injEq] at session
  obtain ⟨firing, busy, skb, owner⟩ := session
  have guarded : Run.Guarded step HeaderAllocated held (init true 1000 0) := by
    refine Run.guarded_of_check ?_
      (show Run.check step (fun _ e => match e with
        | .timeout _ _ => false
        | _ => true) held (init true 1000 0) = true by decide +kernel)
    intro s e passed
    cases e with
    | timeout => cases passed
    | _ => trivial
  have preserved : ∀ s e s', Kept s → True → HeaderAllocated s e → step s e = .ok s' → Kept s' :=
    fun _ _ _ kept _ header stepped => step_kept kept header stepped
  have kept : Kept s :=
    guarded.throughout preserved (fun _ kept => kept) (fun _ _ => trivial)
      (kept_init true 1000 0) held [] s (List.append_nil held).symm ran
  refine ⟨s.tcpAckTimeout 0 ⟨false, false, true, true⟩, ?_, ?_, fun owned => ?_⟩
  · rw [Run.run_append held _ ran]
    exact Run.run_cons_ok [] (if_pos firing)
  · exact (congrFun calls_tcpAckTimeout.2 _).trans owner
  · have sound := sound_iff_ownedOnce.mpr owned
    rw [tcpAckTimeout_custody busy skb] at sound
    exact kept.sound.not_lose skb sound

end Filter

end AmlW2.TcpAck
