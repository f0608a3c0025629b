import AmlW2.Tx.HostId

/-!
# Ids that are renewed in time

An id may be pushed again once nothing that is shown was confirmed under it.  Its element is renewed
with every confirmation, and what was confirmed is shown for 256 confirmations more at most, so the
ten bits of the prefix suffice as long as each frame is confirmed before 768 ids are renewed after
its own and none is flushed after its descriptor was sent.
-/

namespace AmlW2.Tx.HostId

/-! ## Steps -/

theorem Sys.find_spec {s : Sys} {hostid : Nat} {p : Pushed} (found : s.find hostid = some p) :
    p ∈ s.pushed ∧ p.hostid = hostid := by
  rw [Sys.find] at found
  split_ifs at found
  exact ⟨List.mem_of_find?_eq_some found, by simpa using List.find?_some found⟩

/-- With fewer frames pushed, an entry still matches no other. -/
theorem Own.mono {s s' : Sys} {e : Entry} (own : Own s e) (fewer : s'.pushed ⊆ s.pushed) :
    Own s' e := fun p member => own p (fewer member)

namespace Sound

variable {s : Sys} {p : Pushed}

theorem init (sram : Nat → Nat) : Sound (Sys.init sram) where
  distinct := (Pool.init sram).distinct
  last p member := by cases member
  resolved a member := by cases member
  once := List.Perm.refl _
  ring i _ p member := by cases member
  copy i _ p member := by cases member

/-- The entry at `cur` is that of the frame it is resolved to. -/
theorem owner_of_find (sound : Sound s) (pool : Pool s)
    (found : s.find (s.readCfm s.cur).hostid = some p) :
    p ∈ s.pushed ∧ (s.readCfm s.cur).owner = some p := by
  obtain ⟨member, same⟩ := Sys.find_spec found
  exact ⟨member, sound.copy s.cur pool.cur p member same⟩

/-- An entry that shows nothing in the way of an id matches nothing pushed under it. -/
theorem own_push (pool : Pool s) {e : Entry} {t : IpcHostid} (free : t ∈ s.available)
    (shows_ : e.Shows s.next) (clear : e.Clear t) (own : Own s e) :
    Own { s with pushed := s.pushed ++ [⟨t.hostid, t.turn, s.next⟩] } e := by
  intro p member same
  rcases List.mem_append.mp member with before | new
  · exact own p before same
  · rw [List.mem_singleton.mp new] at same
    rw [Entry.Clear] at clear
    cases owner : e.owner with
    | none =>
        rw [owner] at clear
        exact absurd same.symm clear
    | some q =>
        rw [owner] at clear
        obtain ⟨hostid, made, -⟩ := shows_ q owner
        have other := ((pool.available t free).apart_iff made).mp clear
        exact absurd (hostid.symm.trans same.symm) other

theorem push (sound : Sound s) (pool : Pool s) (renewed : Renewed s .push) : Sound s.push := by
  have after := pool.push.distinct
  obtain ⟨t, available, head, clear⟩ := renewed
  have free : t ∈ s.available := head ▸ List.mem_cons_self
  have own : ∀ {e : Entry}, e.Shows s.next → e.Clear t → Own s e → Own s.push e := by
    intro e shows_ clear own
    rw [Sys.push_of_cons head]
    exact own_push pool free shows_ clear own
  have same : s.push.sram = s.sram ∧ s.push.readCfm = s.readCfm := by
    rw [Sys.push_of_cons head]
    exact ⟨rfl, rfl⟩
  refine ⟨after, ?_, ?_, ?_, fun i small => ?_, fun i small => ?_⟩
  · have others : ∀ p ∈ s.pushed, t.hostid ≠ p.hostid := fun p member equal =>
      pool.slot_ne member free (congrArg slot equal.symm)
    intro p member
    rw [Sys.push_of_cons head] at member ⊢
    rcases List.mem_append.mp member with before | new
    · rw [List.find?_cons_of_neg (by simpa using others p before)]
      exact sound.last p before
    · rw [List.mem_singleton.mp new]
      exact List.find?_cons_of_pos (by simp)
  · rw [Sys.push_of_cons head]
    exact sound.resolved
  · rw [Sys.push_of_cons head]
    simp only [List.map_append, List.range_succ]
    rw [← List.append_assoc]
    exact sound.once.append_right _
  · rw [same.1]
    exact own (pool.ring i) (clear i small).1 (sound.ring i small)
  · rw [same.2]
    exact own (pool.copy i) (clear i small).2 (sound.copy i small)

theorem send (sound : Sound s) : Sound s.send := by
  rw [Sys.send]
  split
  · exact sound
  · exact ⟨sound.distinct, sound.last, sound.resolved, sound.once, sound.ring, sound.copy⟩

theorem confirm (sound : Sound s) (pool : Pool s) (renewed : Renewed s (.confirm p)) :
    Sound (s.confirm p) := by
  rw [Sys.confirm]
  split_ifs with held
  · refine ⟨sound.distinct, sound.last, sound.resolved, sound.once, fun i small => ?_, sound.copy⟩
    by_cases here : i = s.written % compactTxcfmCnt
    · intro q member same
      simp only [here, Function.update_self] at same ⊢
      by_contra other
      have different : q ≠ p := fun equal => other (congrArg some equal.symm)
      have own := (pool.frames p (List.mem_append_right _ held)).1
      exact ((pool.made member).apart_iff own).mp (renewed held q member different) same.symm
    · simp only [Function.update_of_ne here]
      exact sound.ring i small
  · exact sound

theorem read (sound : Sound s) (i : Nat) : Sound (s.read i) := by
  refine ⟨sound.distinct, sound.last, sound.resolved, sound.once, sound.ring, fun j bound => ?_⟩
  by_cases here : j = i
  · subst here
    simp only [Sys.read, Function.update_self]
    exact sound.ring j bound
  · simp only [Sys.read, Function.update_of_ne here]
    exact sound.copy j bound

theorem accept (sound : Sound s) (pool : Pool s) (member : p ∈ s.pushed)
    (owner : (s.readCfm s.cur).owner = some p) : Sound (s.accept p) := by
  have fewer : (s.accept p).pushed ⊆ s.pushed := List.erase_subset
  refine ⟨(pool.accept member).distinct, fun q there => sound.last q (fewer there),
    fun a among => ?_, ?_, fun i small => (sound.ring i small).mono fewer,
    fun i small => (sound.copy i small).mono fewer⟩
  · rcases List.mem_append.mp among with before | new
    · exact sound.resolved a before
    · rw [List.mem_singleton.mp new]
      exact owner
  · refine List.perm_iff_count.mpr fun frame => ?_
    have before := sound.once.count_eq frame
    have erased := ((List.perm_cons_erase member).map Pushed.frame).count_eq frame
    simp only [Sys.accept, Sys.release, List.map_append, List.map_cons, List.map_nil,
      List.count_append, List.count_cons, List.count_nil] at before erased ⊢
    omega

theorem cfm (sound : Sound s) (pool : Pool s) : Sound s.cfm := by
  rw [Sys.cfm]
  cases found : s.find (s.readCfm s.cur).hostid with
  | none => exact sound
  | some p =>
      obtain ⟨member, owner⟩ := sound.owner_of_find pool found
      exact sound.accept pool member owner

theorem flush (sound : Sound s) (pool : Pool s) : Sound s.flush := by
  have after := pool.flush.distinct
  rw [Sys.flush] at after ⊢
  cases pushed : s.pushed with
  | nil => exact sound
  | cons p rest =>
      have fewer : rest ⊆ s.pushed := pushed ▸ List.subset_cons_self p rest
      rw [pushed] at after
      refine ⟨after, fun q there => sound.last q (fewer there), sound.resolved, ?_,
        fun i small => (sound.ring i small).mono fewer,
        fun i small => (sound.copy i small).mono fewer⟩
      refine List.perm_iff_count.mpr fun frame => ?_
      have before := sound.once.count_eq frame
      rw [pushed] at before
      simp only [List.map_cons, List.count_append, List.count_cons, List.count_nil] at before ⊢
      omega

end Sound

/-! ## How long an entry is shown -/

/-- An entry at a place of the ring or of its copy, with the frame that it confirms. -/
def Shown (s : Sys) (i : Nat) (p : Pushed) : Prop :=
  (s.sram i).owner = some p ∨ (s.readCfm i).owner = some p

/-- The id of an element, pushed or available. -/
def Sys.HasId (s : Sys) (t : IpcHostid) : Prop :=
  (∃ p ∈ s.pushed, (⟨p.hostid, p.turn⟩ : IpcHostid) = t) ∨ t ∈ s.available

/-- A frame was the `k`th to be accepted, less than a lap ago.  The id of its element was renewed
then, within 768 renewals of its own turn, and is not older. -/
structure Stale (s : Sys) (k : Nat) (p : Pushed) : Prop where
  accepted : k < s.accepted.length
  lap : s.accepted.length ≤ k + compactTxcfmCnt
  later : p.turn < ipcHostidCnt + 2 + k
  soon : ipcHostidCnt + 2 + k ≤ p.turn + 768
  renewed : ∀ t, s.HasId t → slot t.hostid = slot p.hostid → ipcHostidCnt + 2 + k ≤ t.turn

theorem Stale.of_ids {s s' : Sys} {k : Nat} {p : Pushed} (stale : Stale s k p)
    (ids : ∀ t, s'.HasId t → s.HasId t) (accepted : s'.accepted = s.accepted) : Stale s' k p := by
  obtain ⟨before, lap, later, soon, renewed⟩ := stale
  rw [← accepted] at before lap
  exact ⟨before, lap, later, soon, fun t id => renewed t (ids t id)⟩

theorem Sys.hasId_push {s : Sys} {t : IpcHostid} (id : s.push.HasId t) : s.HasId t := by
  cases available : s.available with
  | nil =>
      rw [Sys.push_of_nil available] at id
      exact id
  | cons u rest =>
      rw [Sys.push_of_cons available] at id
      rcases id with ⟨p, member, rfl⟩ | free
      · rcases List.mem_append.mp member with before | new
        · exact Or.inl ⟨p, before, rfl⟩
        · rw [List.mem_singleton.mp new]
          exact Or.inr (available ▸ List.mem_cons_self)
      · exact Or.inr (available ▸ List.mem_cons_of_mem u free)

theorem Sys.hasId_flush {s : Sys} {t : IpcHostid} (id : s.flush.HasId t) : s.HasId t := by
  rw [Sys.flush] at id
  cases pushed : s.pushed with
  | nil =>
      rw [pushed] at id
      exact id
  | cons p rest =>
      rw [pushed] at id
      rcases id with ⟨q, member, rfl⟩ | free
      · exact Or.inl ⟨q, pushed ▸ List.mem_cons_of_mem p member, rfl⟩
      · rcases List.mem_append.mp free with before | new
        · exact Or.inr before
        · rw [List.mem_singleton.mp new]
          exact Or.inl ⟨p, pushed ▸ List.mem_cons_self, rfl⟩

/-- Only the element of the frame accepted has another id. -/
theorem Sys.hasId_accept {s : Sys} {p : Pushed} {t : IpcHostid} (pool : Pool s)
    (member : p ∈ s.pushed) (id : (s.accept p).HasId t) :
    s.HasId t ∧ slot t.hostid ≠ slot p.hostid ∨ t.turn = s.turn + 1 := by
  rcases id with ⟨q, there, rfl⟩ | free
  · obtain ⟨different, before⟩ := pool.nodup.mem_erase_iff.mp there
    exact Or.inl ⟨Or.inl ⟨q, before, rfl⟩, fun same => different
      (pool.pushed_inj before member same)⟩
  · rcases List.mem_append.mp free with before | new
    · exact Or.inl ⟨Or.inr before, (pool.slot_ne member before).symm⟩
    · rw [List.mem_singleton.mp new]
      exact Or.inr rfl

/-- What is kept as long as every confirmation is prompt. -/
structure Recent (s : Sys) : Prop where
  turn : s.turn = ipcHostidCnt + 1 + s.accepted.length
  cur : s.cur = s.accepted.length % compactTxcfmCnt
  le : ∀ t, s.HasId t → t.turn ≤ s.turn
  /-- What is sent is pushed, and not confirmed yet. -/
  sent : (s.saved ++ s.held).Nodup
  sent_pushed : s.saved ++ s.held ⊆ s.pushed
  unsent : ∀ i p, Shown s i p → p ∉ s.saved ++ s.held
  /-- No frame is confirmed in two places. -/
  place : ∀ i j p, Shown s i p → Shown s j p → i = j
  /-- A frame that is shown and not pushed any more was accepted less than a lap ago. -/
  shown : ∀ i p, Shown s i p → p ∈ s.pushed ∨ ∃ k, k % compactTxcfmCnt = i ∧ Stale s k p
  /-- The ring is not behind its copy. -/
  same : ∀ i p, (s.sram i).owner = some p → p ∉ s.pushed → (s.readCfm i).owner = some p

namespace Recent

variable {s : Sys} {p : Pushed}

theorem init (sram : Nat → Nat) : Recent (Sys.init sram) where
  turn := rfl
  cur := rfl
  le t id := by
    rcases id with ⟨p, member, -⟩ | free
    · cases member
    · obtain ⟨i, among, rfl⟩ := List.mem_map.mp free
      have bound : i < 521 := (List.mem_range'_1.mp among).2
      exact Nat.le_of_lt bound
  sent := List.nodup_nil
  sent_pushed := List.nil_subset _
  unsent i p shown := by rcases shown with owner | owner <;> cases owner
  place i j p shown := by rcases shown with owner | owner <;> cases owner
  shown i p shown := by rcases shown with owner | owner <;> cases owner
  same i p owner := by cases owner

/-- An id that is pushed is not that of any entry that is shown: its element was renewed after what
the entry confirms, and less than 1024 renewals after it. -/
theorem clear (recent : Recent s) (pool : Pool s) {t : IpcHostid} {available : List IpcHostid}
    {e : Entry} {i : Nat} (head : s.available = t :: available)
    (at_ : ∀ q, e.owner = some q → Shown s i q) (foreign : e.Foreign t) : e.Clear t := by
  have free : t ∈ s.available := head ▸ List.mem_cons_self
  rw [Entry.Clear]
  cases owner : e.owner with
  | none => exact foreign owner
  | some q =>
      intro element
      rcases recent.shown i q (at_ q owner) with member | ⟨k, -, stale⟩
      · exact absurd element (pool.slot_ne member free)
      · have lap := stale.lap
        have later := stale.later
        have soon := stale.soon
        have after := stale.renewed t (Or.inr free) element.symm
        have before := recent.le t (Or.inr free)
        have turn := recent.turn
        rw [compactTxcfmCnt] at lap
        omega

/-- A run of prompt confirmations never reuses an id that is shown. -/
theorem renewed (recent : Recent s) (pool : Pool s) {e : Event} (prompt : Prompt s e) :
    Renewed s e := by
  cases e with
  | push =>
      obtain ⟨t, available, head, foreign⟩ := prompt
      exact ⟨t, available, head, fun i small =>
        ⟨recent.clear pool head (fun q owner => Or.inl owner) (foreign i small).1,
          recent.clear pool head (fun q owner => Or.inr owner) (foreign i small).2⟩⟩
  | confirm p =>
      intro held q member different element
      have pushed := recent.sent_pushed (List.mem_append_right _ held)
      exact absurd (pool.pushed_inj member pushed element.symm) different
  | _ => trivial

/-- What is shown stays pushed or stale, when no id is made. -/
theorem shown_of (recent : Recent s) {s' : Sys} {i : Nat} (shown : Shown s i p)
    (stays : p ∈ s.pushed → p ∈ s'.pushed) (ids : ∀ t, s'.HasId t → s.HasId t)
    (accepted : s'.accepted = s.accepted) :
    p ∈ s'.pushed ∨ ∃ k, k % compactTxcfmCnt = i ∧ Stale s' k p :=
  (recent.shown i p shown).imp stays fun ⟨k, index, stale⟩ =>
    ⟨k, index, stale.of_ids ids accepted⟩

theorem push (recent : Recent s) (pool : Pool s) : Recent s.push := by
  have ids := @Sys.hasId_push s
  cases available : s.available with
  | nil =>
      rw [Sys.push_of_nil available] at ids ⊢
      exact ⟨recent.turn, recent.cur, recent.le, recent.sent, recent.sent_pushed, recent.unsent,
        recent.place, fun i q shown => recent.shown_of shown id (fun _ => ids) rfl, recent.same⟩
  | cons t rest =>
      rw [Sys.push_of_cons available] at ids ⊢
      let new : Pushed := ⟨t.hostid, t.turn, s.next⟩
      have fresh : ∀ i, ¬Shown s i new := by
        rintro i (owner | owner)
        · exact Nat.lt_irrefl _ (pool.ring i _ owner).2.2
        · exact Nat.lt_irrefl _ (pool.copy i _ owner).2.2
      have unsent : new ∉ s.saved ++ s.held := by
        intro member
        have among : new ∈ s.pushed ++ s.saved ++ s.held := by
          rw [List.append_assoc]
          exact List.mem_append_right _ member
        exact Nat.lt_irrefl _ (pool.frames _ among).2
      have moved : (s.saved ++ [new] ++ s.held).Perm (new :: (s.saved ++ s.held)) := by
        rw [List.append_assoc]
        exact List.perm_middle
      refine ⟨recent.turn, recent.cur, fun u id => recent.le u (ids id),
        moved.nodup_iff.mpr (List.nodup_cons.mpr ⟨unsent, recent.sent⟩), fun q member => ?_,
        fun i q shown member => ?_, recent.place,
        fun i q shown => recent.shown_of shown (List.mem_append_left _) (fun _ => ids) rfl,
        fun i q owner gone => recent.same i q owner fun member =>
          gone (List.mem_append_left _ member)⟩
      · rcases List.mem_cons.mp (moved.mem_iff.mp member) with rfl | before
        · exact List.mem_append_right _ List.mem_cons_self
        · exact List.mem_append_left _ (recent.sent_pushed before)
      · rcases List.mem_cons.mp (moved.mem_iff.mp member) with rfl | before
        · exact fresh i shown
        · exact recent.unsent i q shown before

theorem send (recent : Recent s) : Recent s.send := by
  rw [Sys.send]
  split
  · exact recent
  · rename_i p rest saved
    have moved : (rest ++ (s.held ++ [p])).Perm (s.saved ++ s.held) := by
      rw [saved, ← List.append_assoc]
      exact List.perm_append_singleton p _
    exact ⟨recent.turn, recent.cur, recent.le, moved.nodup_iff.mpr recent.sent,
      fun q member => recent.sent_pushed (moved.mem_iff.mp member),
      fun i q shown member => recent.unsent i q shown (moved.mem_iff.mp member),
      recent.place, fun i q shown => recent.shown_of shown id (fun _ => id) rfl, recent.same⟩

theorem confirm (recent : Recent s) (p : Pushed) : Recent (s.confirm p) := by
  rw [Sys.confirm]
  split_ifs with held
  · have pushed := recent.sent_pushed (List.mem_append_right _ held)
    have sent := recent.sent
    have moved : (s.saved ++ s.held).Perm (p :: (s.saved ++ s.held.erase p)) :=
      ((List.perm_cons_erase held).append_left _).trans List.perm_middle
    obtain ⟨out, rest⟩ := List.nodup_cons.mp (moved.nodup_iff.mp sent)
    have fewer : ∀ q, q ∈ s.saved ++ s.held.erase p → q ∈ s.saved ++ s.held := fun q member =>
      moved.mem_iff.mpr (List.mem_cons_of_mem p member)
    -- what is shown now was shown before, or is the frame at the place written
    have cases_ : ∀ i q, Shown { s with
        sram := Function.update s.sram (s.written % compactTxcfmCnt) p.entry } i q →
        Shown s i q ∨ q = p ∧ i = s.written % compactTxcfmCnt := by
      rintro i q (owner | owner)
      · by_cases here : i = s.written % compactTxcfmCnt
        · simp only [here, Function.update_self] at owner
          exact Or.inr ⟨(Option.some.inj owner).symm, here⟩
        · simp only [Function.update_of_ne here] at owner
          exact Or.inl (Or.inl owner)
      · exact Or.inl (Or.inr owner)
    have unshown : ∀ i, ¬Shown s i p := fun i shown =>
      recent.unsent i p shown (List.mem_append_right _ held)
    refine ⟨recent.turn, recent.cur, recent.le, rest,
      fun q member => recent.sent_pushed (fewer q member), fun i q shown => ?_,
      fun i j q shown shown' => ?_, fun i q shown => ?_, fun i q owner gone => ?_⟩
    · rcases cases_ i q shown with before | ⟨rfl, -⟩
      · exact fun member => recent.unsent i q before (fewer q member)
      · exact out
    · rcases cases_ i q shown with before | ⟨rfl, here⟩
      · rcases cases_ j q shown' with before' | ⟨rfl, -⟩
        · exact recent.place i j q before before'
        · exact absurd before (unshown i)
      · rcases cases_ j q shown' with before' | ⟨-, here'⟩
        · exact absurd before' (unshown j)
        · rw [here, here']
    · rcases cases_ i q shown with before | ⟨rfl, -⟩
      · exact recent.shown_of before id (fun _ => id) rfl
      · exact Or.inl pushed
    · by_cases here : i = s.written % compactTxcfmCnt
      · simp only [here, Function.update_self] at owner
        rw [← Option.some.inj owner] at gone
        exact absurd pushed gone
      · simp only [Function.update_of_ne here] at owner
        exact recent.same i q owner gone
  · exact recent

theorem read (recent : Recent s) (i : Nat) : Recent (s.read i) := by
  have before : ∀ j q, Shown (s.read i) j q → Shown s j q := by
    rintro j q (owner | owner)
    · exact Or.inl owner
    · by_cases here : j = i
      · subst here
        simp only [Sys.read, Function.update_self] at owner
        exact Or.inl owner
      · simp only [Sys.read, Function.update_of_ne here] at owner
        exact Or.inr owner
  refine ⟨recent.turn, recent.cur, recent.le, recent.sent, recent.sent_pushed,
    fun j q shown => recent.unsent j q (before j q shown),
    fun j k q shown shown' => recent.place j k q (before j q shown) (before k q shown'),
    fun j q shown => recent.shown_of (before j q shown) id (fun _ => id) rfl,
    fun j q owner gone => ?_⟩
  by_cases here : j = i
  · subst here
    simp only [Sys.read, Function.update_self]
    exact owner
  · simp only [Sys.read, Function.update_of_ne here]
    exact recent.same j q owner gone

/-- The frame accepted is stale from now on. -/
theorem stale_accept (recent : Recent s) (pool : Pool s) (member : p ∈ s.pushed)
    (prompt : s.turn < p.turn + 768) : Stale (s.accept p) s.accepted.length p := by
  have turn := recent.turn
  have length : (s.accept p).accepted.length = s.accepted.length + 1 := List.length_append
  have le : p.turn ≤ s.turn := recent.le _ (Or.inl ⟨p, member, rfl⟩)
  refine ⟨by omega, by rw [length, compactTxcfmCnt]; omega, by omega, by omega,
    fun t id element => ?_⟩
  rcases Sys.hasId_accept pool member id with ⟨-, other⟩ | new
  · exact absurd element other
  · omega

/-- A frame that was stale stays so, unless it was accepted a lap ago. -/
theorem accept_stale (recent : Recent s) (pool : Pool s) (member : p ∈ s.pushed) {k : Nat}
    {q : Pushed} (stale : Stale s k q) (less : s.accepted.length < k + compactTxcfmCnt) :
    Stale (s.accept p) k q := by
  have turn := recent.turn
  have accepted := stale.accepted
  have length : (s.accept p).accepted.length = s.accepted.length + 1 := List.length_append
  refine ⟨by omega, by omega, stale.later, stale.soon, fun t id element => ?_⟩
  rcases Sys.hasId_accept pool member id with ⟨before, -⟩ | new
  · exact stale.renewed t before element
  · omega

theorem accept (recent : Recent s) (pool : Pool s) (member : p ∈ s.pushed)
    (owner : (s.readCfm s.cur).owner = some p) (prompt : s.turn < p.turn + 768) :
    Recent (s.accept p) := by
  have here : Shown s s.cur p := Or.inr owner
  have unsent := recent.unsent s.cur p here
  have length : (s.accept p).accepted.length = s.accepted.length + 1 := List.length_append
  have still : ∀ q, q ∈ s.pushed → q ≠ p → q ∈ (s.accept p).pushed := fun q before different =>
    (List.mem_erase_of_ne different).mpr before
  refine ⟨?_, ?_, fun t id => ?_, recent.sent, fun q sent => ?_, recent.unsent, recent.place,
    fun i q shown => ?_, fun i q ring gone => ?_⟩
  · rw [length, ← Nat.add_assoc, ← recent.turn]
    rfl
  · change (s.cur + 1) % compactTxcfmCnt = _
    rw [length, recent.cur, Nat.mod_add_mod]
  · change t.turn ≤ s.turn + 1
    rcases Sys.hasId_accept pool member id with ⟨before, -⟩ | new
    · exact Nat.le_succ_of_le (recent.le t before)
    · exact Nat.le_of_eq new
  · refine still q (recent.sent_pushed sent) ?_
    rintro rfl
    exact unsent sent
  · by_cases accepted : q = p
    · subst accepted
      refine Or.inr ⟨s.accepted.length, ?_, recent.stale_accept pool member prompt⟩
      rw [← recent.cur]
      exact recent.place _ _ q here shown
    · rcases recent.shown i q shown with before | ⟨k, index, stale⟩
      · exact Or.inl (still q before accepted)
      · refine Or.inr ⟨k, index, recent.accept_stale pool member stale ?_⟩
        rcases Nat.lt_or_eq_of_le stale.lap with less | equal
        · exact less
        · -- a frame of a lap ago would be shown where the one accepted is
          have place : i = s.cur := by rw [← index, recent.cur, equal, Nat.add_mod_right]
          subst place
          have gone : q ∉ s.pushed := fun there =>
            Nat.not_lt.mpr (stale.renewed _ (Or.inl ⟨q, there, rfl⟩) rfl) stale.later
          have copy : (s.readCfm s.cur).owner = some q :=
            shown.elim (fun ring => recent.same _ q ring gone) id
          exact absurd (Option.some.inj (copy.symm.trans owner)) accepted
  · by_cases accepted : q = p
    · subst accepted
      rw [recent.place i s.cur q (Or.inl ring) here]
      exact owner
    · exact recent.same i q ring fun there => gone (still q there accepted)

theorem cfm (recent : Recent s) (pool : Pool s) (sound : Sound s) (prompt : Prompt s .cfm) :
    Recent s.cfm := by
  rw [Sys.cfm]
  cases found : s.find (s.readCfm s.cur).hostid with
  | none => exact recent
  | some p =>
      obtain ⟨member, owner⟩ := sound.owner_of_find pool found
      exact recent.accept pool member owner (prompt p found)

theorem flush (recent : Recent s) (prompt : Prompt s .flush) : Recent s.flush := by
  have ids := @Sys.hasId_flush s
  rw [Sys.flush] at ids ⊢
  cases pushed : s.pushed with
  | nil => exact recent
  | cons p rest =>
      rw [pushed] at ids
      have saved : p ∈ s.saved := prompt p (by rw [pushed]; rfl)
      have moved : (s.saved ++ s.held).Perm (p :: (s.saved.erase p ++ s.held)) :=
        (List.perm_cons_erase saved).append_right _
      obtain ⟨out, sent⟩ := List.nodup_cons.mp (moved.nodup_iff.mp recent.sent)
      have fewer : ∀ q, q ∈ s.saved.erase p ++ s.held → q ∈ s.saved ++ s.held := fun q member =>
        moved.mem_iff.mpr (List.mem_cons_of_mem p member)
      have still : ∀ q, q ∈ s.pushed → q ≠ p → q ∈ rest := fun q before different =>
        (List.mem_cons.mp (pushed ▸ before)).resolve_left different
      have unflushed : ∀ i q, Shown s i q → q ≠ p := by
        rintro i q shown rfl
        exact recent.unsent i q shown (List.mem_append_left _ saved)
      refine ⟨recent.turn, recent.cur, fun t id => recent.le t (ids id), sent,
        fun q member => ?_, fun i q shown member => recent.unsent i q shown (fewer q member),
        recent.place, fun i q shown => ?_, fun i q owner gone => recent.same i q owner fun member =>
          gone (still q member (unflushed i q (Or.inl owner)))⟩
      · refine still q (recent.sent_pushed (fewer q member)) ?_
        rintro rfl
        exact out member
      · exact recent.shown_of shown (fun member => still q member (unflushed i q shown))
          (fun _ => ids) rfl

end Recent

/-! ## Runs -/

theorem Pool.step {s : Sys} (pool : Pool s) (sound : Sound s) {e : Event} {s' : Sys}
    (ran : s.step e = .ok s') : Pool s' := by
  cases e with
  | cfm =>
      cases ran
      rw [Sys.cfm]
      cases found : s.find (s.readCfm s.cur).hostid with
      | none => exact pool
      | some p => exact pool.accept (sound.owner_of_find pool found).1
  | push =>
      cases ran
      exact pool.push
  | send =>
      cases ran
      exact pool.send
  | confirm p =>
      cases ran
      exact pool.confirm p
  | read i =>
      cases ran
      exact pool.read i
  | flush =>
      cases ran
      exact pool.flush

theorem Sound.step {s : Sys} (sound : Sound s) (pool : Pool s) {e : Event} (renewed : Renewed s e) :
    ∃ s', s.step e = .ok s' ∧ Sound s' := by
  cases e with
  | push => exact ⟨_, rfl, sound.push pool renewed⟩
  | send => exact ⟨_, rfl, sound.send⟩
  | confirm p => exact ⟨_, rfl, sound.confirm pool renewed⟩
  | read i => exact ⟨_, rfl, sound.read i⟩
  | cfm => exact ⟨_, rfl, sound.cfm pool⟩
  | flush => exact ⟨_, rfl, sound.flush pool⟩

theorem Recent.step {s : Sys} (recent : Recent s) (pool : Pool s) (sound : Sound s) {e : Event}
    {s' : Sys} (prompt : Prompt s e) (ran : s.step e = .ok s') : Recent s' := by
  cases e with
  | push =>
      cases ran
      exact recent.push pool
  | send =>
      cases ran
      exact recent.send
  | confirm p =>
      cases ran
      exact recent.confirm p
  | read i =>
      cases ran
      exact recent.read i
  | cfm =>
      cases ran
      exact recent.cfm pool sound prompt
  | flush =>
      cases ran
      exact recent.flush prompt

end AmlW2.Tx.HostId
