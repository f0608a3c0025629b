import AmlW2.Lib.Run
import Mathlib.Algebra.Ring.Nat
import Mathlib.Data.List.Nodup
import Mathlib.Data.List.Perm.Basic

/-!
# Host ids of frames on SDIO and USB

A frame is pushed to the firmware under a host id from a pool, and confirmed under it in a ring that
the host reads as a whole and never clears.  An id that is confirmed gets a new prefix of ten bits
before it returns to the pool, so that what remains of it in the ring is not taken for the frame
pushed under it next.  An entry stays in the ring for 256 confirmations at most, so the prefix does
not come round as long as no frame waits too long for its own.
-/

namespace AmlW2.Tx.HostId

/-! ## State -/

/-- `COMPACT_TXCFM_CNT`. -/
def compactTxcfmCnt : Nat := 256

/-- `IPC_HOSTID_CNT`, for one user. -/
def ipcHostidCnt : Nat := 520

/-- `aml_compact_tx_host_id`. -/
def amlCompactTxHostId (hi hostid : Nat) : Nat := (hi * 65536 + hostid % 65536) % 2 ^ 26

/-- The element of `tx_hostid_sdio_usb` that a host id belongs to. -/
def slot (hostid : Nat) : Nat := hostid % 65536

/-- `struct ipc_hostid` while it is available. -/
structure IpcHostid where
  hostid : Nat
  /-- What `hostid_prefix` was when the id was made, counted on beyond its 16 bits. -/
  turn : Nat
deriving DecidableEq, Repr

/-- A frame under its host id.  The frames are numbered as they are pushed: one that is pushed again
to be sent again counts as another. -/
structure Pushed where
  hostid : Nat
  turn : Nat
  /-- `hostptr`. -/
  frame : Nat
deriving DecidableEq, Repr

/-- An entry of the ring: the host id, and the frame that the firmware confirmed with it, if it has
written the entry since the driver was loaded. -/
structure Entry where
  hostid : Nat
  owner : Option Pushed
deriving DecidableEq, Repr

/-- The entry for a frame. -/
def Pushed.entry (p : Pushed) : Entry := ⟨p.hostid, some p⟩

structure Sys where
  /-- `tx_hostid_pushed`. -/
  pushed : List Pushed
  /-- `tx_hostid_available`. -/
  available : List IpcHostid
  hostidPrefix : Nat
  /-- `hostid_prefix`, counted on beyond its 16 bits. -/
  turn : Nat
  /-- `read_cfm`: the copy of the ring. -/
  readCfm : Nat → Entry
  /-- `cur` of `aml_tx_cfm_task`. -/
  cur : Nat
  /-- `tx_desc_save`: the descriptors that the firmware has not got yet. -/
  saved : List Pushed
  /-- The descriptors the firmware has. -/
  held : List Pushed
  /-- The ring of the firmware. -/
  sram : Nat → Entry
  /-- How many confirmations the firmware has written. -/
  written : Nat
  /-- The entries the host has accepted, each with the frame it was resolved to. -/
  accepted : List (Entry × Pushed)
  /-- The frames that were flushed. -/
  flushed : List Nat
  /-- All that was pushed, the last one first. -/
  history : List Pushed
  /-- The number of the next frame. -/
  next : Nat

inductive Event
  | push
  /-- `aml_tx_task` sends the first descriptor to the firmware. -/
  | send
  /-- The firmware confirms a frame. -/
  | confirm (p : Pushed)
  /-- `hi_sram_read`, for one entry of the ring. -/
  | read (i : Nat)
  /-- A turn of the loop of `aml_tx_cfm_task`. -/
  | cfm
  /-- A turn of the loop of `aml_ipc_tx_drain`. -/
  | flush

namespace Sys

/-! ## Operations -/

/-- `ipc_host_tx_host_ptr_to_id`, as `aml_sdio_ipc_txdesc_push` uses it. -/
def push (s : Sys) : Sys :=
  match s.available with
  | [] => { s with next := s.next + 1 }
  | t :: available =>
      { s with
        pushed := s.pushed ++ [⟨t.hostid, t.turn, s.next⟩]
        available
        saved := s.saved ++ [⟨t.hostid, t.turn, s.next⟩]
        history := ⟨t.hostid, t.turn, s.next⟩ :: s.history
        next := s.next + 1 }

theorem push_of_nil {s : Sys} (empty : s.available = []) :
    s.push = { s with next := s.next + 1 } := by rw [push, empty]

theorem push_of_cons {s : Sys} {t : IpcHostid} {available : List IpcHostid}
    (head : s.available = t :: available) :
    s.push = { s with
      pushed := s.pushed ++ [⟨t.hostid, t.turn, s.next⟩]
      available
      saved := s.saved ++ [⟨t.hostid, t.turn, s.next⟩]
      history := ⟨t.hostid, t.turn, s.next⟩ :: s.history
      next := s.next + 1 } := by rw [push, head]

def send (s : Sys) : Sys :=
  match s.saved with
  | [] => s
  | p :: saved => { s with saved, held := s.held ++ [p] }

/-- The firmware writes the next entry of its ring. -/
def confirm (s : Sys) (p : Pushed) : Sys :=
  if p ∈ s.held then
    { s with
      held := s.held.erase p
      sram := Function.update s.sram (s.written % compactTxcfmCnt) p.entry
      written := s.written + 1 }
  else s

def read (s : Sys) (i : Nat) : Sys := { s with readCfm := Function.update s.readCfm i (s.sram i) }

/-- The element that `ipc_host_tx_host_id_to_ptr_for_sdio_usb` finds. -/
def find (s : Sys) (hostid : Nat) : Option Pushed :=
  if hostid = 0 ∨ ipcHostidCnt < slot hostid then none
  else s.pushed.find? fun p => p.hostid = hostid

/-- What `ipc_host_tx_host_id_to_ptr_for_sdio_usb` does with the element. -/
def release (s : Sys) (p : Pushed) : Sys :=
  { s with
    pushed := s.pushed.erase p
    available := s.available ++
      [⟨amlCompactTxHostId ((s.hostidPrefix + 1) % 65536) p.hostid, s.turn + 1⟩]
    hostidPrefix := (s.hostidPrefix + 1) % 65536
    turn := s.turn + 1 }

def accept (s : Sys) (p : Pushed) : Sys :=
  { s.release p with
    cur := (s.cur + 1) % compactTxcfmCnt
    accepted := s.accepted ++ [(s.readCfm s.cur, p)] }

/-- The entry at `cur` is accepted when its host id is found; otherwise it is left for later. -/
def cfm (s : Sys) : Sys :=
  match s.find (s.readCfm s.cur).hostid with
  | none => s
  | some p => s.accept p

/-- `ipc_host_tx_flush`; the frame is dropped, and is not sent if it was not sent yet. -/
def flush (s : Sys) : Sys :=
  match s.pushed with
  | [] => s
  | p :: pushed =>
      { s with
        pushed
        available := s.available ++ [⟨p.hostid, p.turn⟩]
        saved := s.saved.erase p
        flushed := s.flushed ++ [p.frame] }

def step (s : Sys) : Event → Except Empty Sys
  | .push => .ok s.push
  | .send => .ok s.send
  | .confirm p => .ok (s.confirm p)
  | .read i => .ok (s.read i)
  | .cfm => .ok s.cfm
  | .flush => .ok s.flush

/-- After `ipc_host_init` and `aml_tx_cfmed_list_init`, whatever the ring of the firmware holds. -/
def init (sram : Nat → Nat) : Sys where
  pushed := []
  available := (List.range' 1 ipcHostidCnt).map fun i => ⟨amlCompactTxHostId i i, i⟩
  hostidPrefix := ipcHostidCnt + 1
  turn := ipcHostidCnt + 1
  readCfm := fun _ => ⟨0, none⟩
  cur := 0
  saved := []
  held := []
  sram := fun i => ⟨sram i, none⟩
  written := 0
  accepted := []
  flushed := []
  history := []
  next := 0

end Sys

/-! ## Soundness -/

/-- An entry matches no frame that is pushed but the one it confirms. -/
def Own (s : Sys) (e : Entry) : Prop := ∀ p ∈ s.pushed, p.hostid = e.hostid → e.owner = some p

/-- What the ids are for. -/
structure Sound (s : Sys) : Prop where
  /-- The ids that are pushed and those that are available are all different. -/
  distinct : (s.pushed.map Pushed.hostid ++ s.available.map IpcHostid.hostid).Nodup
  /-- A frame that is pushed is the last one pushed under its id. -/
  last : ∀ p ∈ s.pushed, s.history.find? (fun q => q.hostid = p.hostid) = some p
  /-- Every confirmation was resolved to the frame that it confirms. -/
  resolved : ∀ a ∈ s.accepted, a.1.owner = some a.2
  /-- Every frame was accepted once or flushed once, or is pushed. -/
  once : (s.accepted.map (fun a => a.2.frame) ++ s.flushed ++ s.pushed.map Pushed.frame).Perm
    (List.range s.next)
  /-- An old entry matches no frame. -/
  ring : ∀ i < compactTxcfmCnt, Own s (s.sram i)
  copy : ∀ i < compactTxcfmCnt, Own s (s.readCfm i)

/-- Two ids of one element are different if they were not made a multiple of 1024 renewals apart.
An id that returned with a flush was not renewed. -/
def Apart (hostid turn : Nat) (p : Pushed) : Prop :=
  slot p.hostid = slot hostid → p.turn % 1024 ≠ turn % 1024

/-- What an entry shows does not stand in the way of an id. -/
def Entry.Clear (e : Entry) (t : IpcHostid) : Prop :=
  match e.owner with
  | none => e.hostid ≠ t.hostid
  | some p => Apart t.hostid t.turn p

/-- A frame is pushed under an id of an element none of whose confirmations that are shown is a
multiple of 1024 renewals older, nor one from before the driver was loaded; and none is confirmed
while another is pushed under an id that is so much newer. -/
def Renewed (s : Sys) : Event → Prop
  | .push => ∃ t available, s.available = t :: available ∧
      ∀ i < compactTxcfmCnt, (s.sram i).Clear t ∧ (s.readCfm i).Clear t
  | .confirm p => p ∈ s.held → ∀ q ∈ s.pushed, q ≠ p → Apart q.hostid q.turn p
  | _ => True

/-- An entry from before the driver was loaded shows another id. -/
def Entry.Foreign (e : Entry) (t : IpcHostid) : Prop := e.owner = none → e.hostid ≠ t.hostid

/-- No frame is flushed after its descriptor was sent, and each is confirmed before 768 ids are
renewed after its own. -/
def Prompt (s : Sys) : Event → Prop
  | .push => ∃ t available, s.available = t :: available ∧
      ∀ i < compactTxcfmCnt, (s.sram i).Foreign t ∧ (s.readCfm i).Foreign t
  | .cfm => ∀ p, s.find (s.readCfm s.cur).hostid = some p → s.turn < p.turn + 768
  | .flush => ∀ p, s.pushed.head? = some p → p ∈ s.saved
  | _ => True

/-! ## How ids are made -/

/-- An id is its element with the last ten bits of its turn. -/
def Made (hostid turn : Nat) : Prop := hostid = amlCompactTxHostId turn hostid

theorem slot_amlCompactTxHostId (hi hostid : Nat) :
    slot (amlCompactTxHostId hi hostid) = slot hostid := by
  rw [slot, slot, amlCompactTxHostId]
  omega

theorem made_amlCompactTxHostId (hi hostid : Nat) :
    Made (amlCompactTxHostId (hi % 65536) hostid) hi := by
  rw [Made, amlCompactTxHostId, amlCompactTxHostId]
  omega

theorem Made.eq_iff {hostid turn hostid' turn' : Nat} (made : Made hostid turn)
    (made' : Made hostid' turn') :
    hostid = hostid' ↔ slot hostid = slot hostid' ∧ turn % 1024 = turn' % 1024 := by
  rw [Made, amlCompactTxHostId] at made made'
  rw [slot, slot]
  omega

theorem Made.apart_iff {p : Pushed} {hostid turn : Nat} (made : Made hostid turn)
    (own : Made p.hostid p.turn) : Apart hostid turn p ↔ p.hostid ≠ hostid := by
  rw [Apart, Ne, Ne, own.eq_iff made, not_and]

/-- What an entry shows is the id of the frame it confirms. -/
def Entry.Shows (e : Entry) (next : Nat) : Prop :=
  ∀ p, e.owner = some p → e.hostid = p.hostid ∧ Made p.hostid p.turn ∧ p.frame < next

/-- How the ids are made, in every state. -/
structure Pool (s : Sys) : Prop where
  /-- The elements that are pushed and those that are available are all there are. -/
  ids : (s.pushed.map (fun p => slot p.hostid) ++ s.available.map fun t => slot t.hostid).Perm
    (List.range' 1 ipcHostidCnt)
  counter : s.hostidPrefix = s.turn % 65536
  cur : s.cur < compactTxcfmCnt
  available : ∀ t ∈ s.available, Made t.hostid t.turn
  frames : ∀ p ∈ s.pushed ++ s.saved ++ s.held, Made p.hostid p.turn ∧ p.frame < s.next
  ring : ∀ i, (s.sram i).Shows s.next
  copy : ∀ i, (s.readCfm i).Shows s.next

theorem Entry.Shows.mono {e : Entry} {next next' : Nat} (shows_ : e.Shows next)
    (le : next ≤ next') : e.Shows next' := fun p owner =>
  (shows_ p owner).imp_right fun made => made.imp_right fun lt => Nat.lt_of_lt_of_le lt le

namespace Pool

variable {s : Sys} {p q : Pushed}

theorem slots_nodup (pool : Pool s) :
    (s.pushed.map (fun p => slot p.hostid) ++ s.available.map fun t => slot t.hostid).Nodup :=
  pool.ids.nodup_iff.mpr List.nodup_range'

/-- Two frames pushed under one element are the same. -/
theorem pushed_inj (pool : Pool s) (member : p ∈ s.pushed) (member' : q ∈ s.pushed)
    (same : slot p.hostid = slot q.hostid) : p = q :=
  List.inj_on_of_nodup_map (List.nodup_append.mp pool.slots_nodup).1 member member' same

theorem nodup (pool : Pool s) : s.pushed.Nodup :=
  (List.nodup_append.mp pool.slots_nodup).1.of_map _

/-- No frame is pushed under an element that is available. -/
theorem slot_ne (pool : Pool s) {t : IpcHostid} (member : p ∈ s.pushed) (free : t ∈ s.available) :
    slot p.hostid ≠ slot t.hostid :=
  (List.nodup_append.mp pool.slots_nodup).2.2 _ (List.mem_map_of_mem member) _
    (List.mem_map_of_mem free)

theorem distinct (pool : Pool s) :
    (s.pushed.map Pushed.hostid ++ s.available.map IpcHostid.hostid).Nodup := by
  refine List.Nodup.of_map slot ?_
  rw [List.map_append, List.map_map, List.map_map]
  exact pool.slots_nodup

theorem made (pool : Pool s) (member : p ∈ s.pushed) : Made p.hostid p.turn :=
  (pool.frames p (List.mem_append_left _ (List.mem_append_left _ member))).1

theorem init (sram : Nat → Nat) : Pool (Sys.init sram) where
  ids := by
    have slots : ((List.range' 1 ipcHostidCnt).map fun i =>
        (⟨amlCompactTxHostId i i, i⟩ : IpcHostid)).map (fun t => slot t.hostid) =
        List.range' 1 ipcHostidCnt := by
      rw [List.map_map, List.map_congr_left (g := id), List.map_id]
      intro i member
      have bound : i < 521 := (List.mem_range'_1.mp member).2
      rw [Function.comp_apply, slot_amlCompactTxHostId, slot, id_eq]
      omega
    exact slots ▸ List.Perm.refl _
  counter := rfl
  cur := Nat.zero_lt_succ 255
  available t member := by
    obtain ⟨i, among, rfl⟩ := List.mem_map.mp member
    have bound : i < 521 := (List.mem_range'_1.mp among).2
    have made := made_amlCompactTxHostId i i
    rwa [Nat.mod_eq_of_lt (by omega : i < 65536)] at made
  frames p member := by cases member
  ring i p owner := by cases owner
  copy i p owner := by cases owner

theorem push (pool : Pool s) : Pool s.push := by
  have later := Nat.le_succ s.next
  cases available : s.available with
  | nil =>
      rw [Sys.push_of_nil available]
      exact ⟨pool.ids, pool.counter, pool.cur, pool.available,
        fun p member => (pool.frames p member).imp_right Nat.lt_succ_of_lt,
        fun i => (pool.ring i).mono later, fun i => (pool.copy i).mono later⟩
  | cons t rest =>
      have ids := pool.ids
      rw [available] at ids
      have free : t ∈ s.available := available ▸ List.mem_cons_self
      rw [Sys.push_of_cons available]
      refine ⟨?_, pool.counter, pool.cur,
        fun u member => pool.available u (available ▸ List.mem_cons_of_mem t member),
        fun p member => ?_, fun i => (pool.ring i).mono later, fun i => (pool.copy i).mono later⟩
      · rw [List.map_append, List.append_assoc]
        exact ids
      · by_cases new : p = ⟨t.hostid, t.turn, s.next⟩
        · rw [new]
          exact ⟨pool.available t free, Nat.lt_succ_self _⟩
        · have old : p ∈ s.pushed ++ s.saved ++ s.held := by
            simp only [List.mem_append, List.mem_singleton, new, or_false] at member ⊢
            exact member
          exact (pool.frames p old).imp_right Nat.lt_succ_of_lt

theorem send (pool : Pool s) : Pool s.send := by
  rw [Sys.send]
  cases saved : s.saved with
  | nil => exact pool
  | cons p rest =>
      refine ⟨pool.ids, pool.counter, pool.cur, pool.available, fun q member => ?_, pool.ring,
        pool.copy⟩
      refine pool.frames q ?_
      rw [saved]
      simp only [List.mem_append, List.mem_cons, List.not_mem_nil, or_false] at member ⊢
      tauto

theorem confirm (pool : Pool s) (p : Pushed) : Pool (s.confirm p) := by
  rw [Sys.confirm]
  split_ifs with held
  · refine ⟨pool.ids, pool.counter, pool.cur, pool.available, fun q member => ?_, fun i => ?_,
      pool.copy⟩
    · refine pool.frames q ?_
      rcases List.mem_append.mp member with other | still
      · exact List.mem_append_left _ other
      · exact List.mem_append_right _ (List.mem_of_mem_erase still)
    · by_cases here : i = s.written % compactTxcfmCnt
      · intro q owner
        simp only [here, Function.update_self] at owner ⊢
        cases owner
        exact ⟨rfl, pool.frames p (List.mem_append_right _ held)⟩
      · simp only [Function.update_of_ne here]
        exact pool.ring i
  · exact pool

theorem read (pool : Pool s) (i : Nat) : Pool (s.read i) := by
  refine ⟨pool.ids, pool.counter, pool.cur, pool.available, pool.frames, pool.ring, fun j => ?_⟩
  by_cases here : j = i
  · simp only [Sys.read, here, Function.update_self]
    exact pool.ring i
  · simp only [Sys.read, Function.update_of_ne here]
    exact pool.copy j

/-- An id that is released is made anew. -/
theorem accept (pool : Pool s) (member : p ∈ s.pushed) : Pool (s.accept p) := by
  have removed := List.perm_cons_erase member
  refine ⟨?_, ?_, Nat.mod_lt _ (by decide), fun t free => ?_, fun q there => ?_, pool.ring,
    pool.copy⟩
  · refine List.perm_iff_count.mpr fun id => ?_
    have before := pool.ids.count_eq id
    have erased := (removed.map fun q => slot q.hostid).count_eq id
    simp only [Sys.accept, Sys.release, List.map_append, List.map_cons, List.map_nil,
      slot_amlCompactTxHostId, List.count_append, List.count_cons, List.count_nil]
      at before erased ⊢
    omega
  · have counter := pool.counter
    simp only [Sys.accept, Sys.release]
    omega
  · rcases List.mem_append.mp free with before | new
    · exact pool.available t before
    · rw [List.mem_singleton.mp new]
      have counter : (s.hostidPrefix + 1) % 65536 = (s.turn + 1) % 65536 := by
        rw [pool.counter, Nat.mod_add_mod]
      simp only [counter]
      exact made_amlCompactTxHostId _ _
  · refine pool.frames q ?_
    simp only [Sys.accept, Sys.release, List.mem_append] at there ⊢
    exact there.imp_left fun other => other.imp_left List.mem_of_mem_erase

theorem flush (pool : Pool s) : Pool s.flush := by
  rw [Sys.flush]
  cases pushed : s.pushed with
  | nil => exact pool
  | cons p rest =>
      have made := pool.made (p := p) (pushed ▸ List.mem_cons_self)
      refine ⟨?_, pool.counter, pool.cur, fun t free => ?_, fun q there => ?_, pool.ring,
        pool.copy⟩
      · refine List.perm_iff_count.mpr fun id => ?_
        have before := pool.ids.count_eq id
        rw [pushed] at before
        simp only [List.map_append, List.map_cons, List.map_nil, List.count_append,
          List.count_cons, List.count_nil] at before ⊢
        omega
      · rcases List.mem_append.mp free with before | new
        · exact pool.available t before
        · rw [List.mem_singleton.mp new]
          exact made
      · refine pool.frames q ?_
        rw [pushed]
        simp only [List.mem_append] at there ⊢
        exact there.imp_left fun other =>
          other.imp (List.mem_cons_of_mem p) List.mem_of_mem_erase

end Pool

end AmlW2.Tx.HostId
