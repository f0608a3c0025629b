import AmlW2.Chan.Context
import AmlW2.Lib.Refcount
import AmlW2.Lib.Run

/-!
# The counts of the channel contexts

`count` is the number of interfaces linked to a context, and the channel of a context is cleared as
the last of them leaves.  Both hold exactly while no interface is linked that is linked already: a
connect indication for a connected interface, every mesh peer after the first link, and a CAC on a
linked interface count an interface once more.
-/

namespace AmlW2.Chan

open AmlW2

def Op.links : Op → Bool
  | .link _ _ _ => true
  | _ => false

/-- Neither links an interface nor writes to a context. -/
def Op.plain : Op → Bool
  | .link _ _ _ | .unlink _ | .setChan _ _ => false
  | _ => true

namespace Hw

/-- The context each interface is linked to. -/
def uses (s : Hw) (v : VifId) : Option CtxtId := (s.vifs v).chIndex

def counts (s : Hw) (c : CtxtId) : Nat := (s.chanctxTable c).count

def chanOf (s : Hw) (c : CtxtId) : Option ChanDef := (s.chanctxTable c).chanDef

/-- Each count is the number of interfaces whose `ch_index` names the context. -/
def Counted (s : Hw) : Prop := Refcount.Exact s.uses s.counts

/-- What has to be true of every operation: the counts stay right, none is decremented below 0, and
a channel is cleared exactly when the last interface leaves its context. -/
structure Tracks (s : Hw) (op : Op) : Prop where
  counted : (s.perform op).Counted
  positive : ∀ v c, op = .unlink v → s.uses v = some c → 0 < s.counts c
  cleared : ∀ c, s.chanOf c ≠ none → (s.perform op).chanOf c = none →
    0 < Refcount.users s.uses c ∧ Refcount.users (s.perform op).uses c = 0
  leaves : ∀ c, 0 < Refcount.users s.uses c → Refcount.users (s.perform op).uses c = 0 →
    (s.perform op).chanOf c = none

/-- No interface is linked that is linked already. -/
def Fresh (s : Hw) : Op → Prop
  | .link v ch _ => ch < nxChanCtxtCnt → s.uses v = none
  | _ => True

/-- An operation as a step of its own. -/
def opStep (s : Hw) (op : Op) : Except Fault Hw := .ok (s.perform op)

variable {s : Hw}

theorem run_opStep (s : Hw) (ops : List Op) : Run.run opStep ops s = .ok (s.performAll ops) := by
  induction ops generalizing s with
  | nil => rfl
  | cons op ops induction =>
      rw [Run.run_cons_ok ops (rfl : opStep s op = .ok (s.perform op)), induction]
      rfl

/-! ## Operations -/

theorem uses_link (s : Hw) (v : VifId) (chandef : Option ChanDef) {ch : Nat}
    (valid : ch < nxChanCtxtCnt) :
    (s.link v ch chandef).uses = Function.update s.uses v (some ⟨ch, valid⟩) := by
  rw [link, dif_pos valid]
  exact Function.comp_update Vif.chIndex s.vifs v _

theorem counts_link (s : Hw) (v : VifId) (chandef : Option ChanDef) {ch : Nat}
    (valid : ch < nxChanCtxtCnt) :
    (s.link v ch chandef).counts =
      Function.update s.counts ⟨ch, valid⟩ ((s.counts ⟨ch, valid⟩ + 1) % 256) := by
  rw [link, dif_pos valid]
  exact Function.comp_update Chanctx.count s.chanctxTable _ _

theorem uses_unlink {v : VifId} {c : CtxtId} (linked : s.uses v = some c) :
    (s.unlink v).uses = Function.update s.uses v none := by
  rw [unlink, show (s.vifs v).chIndex = some c from linked]
  exact Function.comp_update Vif.chIndex s.vifs v _

theorem counts_unlink {v : VifId} {c : CtxtId} (linked : s.uses v = some c) :
    (s.unlink v).counts = Function.update s.counts c (s.counts c - 1) := by
  rw [unlink, show (s.vifs v).chIndex = some c from linked]
  exact Function.comp_update Chanctx.count s.chanctxTable _ _

theorem chanOf_unlink {v : VifId} {c : CtxtId} (linked : s.uses v = some c) :
    (s.unlink v).chanOf =
      Function.update s.chanOf c (if s.counts c - 1 = 0 then none else s.chanOf c) := by
  rw [unlink, show (s.vifs v).chIndex = some c from linked]
  exact Function.comp_update Chanctx.chanDef s.chanctxTable _ _

theorem unlink_of_none {v : VifId} (unlinked : s.uses v = none) : s.unlink v = s := by
  rw [unlink, show (s.vifs v).chIndex = none from unlinked]

/-- An interface is not linked once it has been unlinked. -/
theorem uses_unlink_self (s : Hw) (v : VifId) : (s.unlink v).uses v = none := by
  cases linked : s.uses v with
  | none => rw [unlink_of_none linked, linked]
  | some c => rw [uses_unlink linked, Function.update_self]

theorem defines_eq_none {chandef old : Option ChanDef} (undefined : defines chandef old = none) :
    old = none := by
  cases old with
  | none => rfl
  | some old =>
      cases chandef with
      | none => exact undefined
      | some new =>
          rw [defines] at undefined
          split_ifs at undefined

/-- A link clears no channel. -/
theorem chanOf_link {v : VifId} {ch : Nat} {chandef : Option ChanDef} {c : CtxtId}
    (cleared : (s.link v ch chandef).chanOf c = none) : s.chanOf c = none := by
  by_cases valid : ch < nxChanCtxtCnt
  · rw [link, dif_pos valid] at cleared
    rcases eq_or_ne c ⟨ch, valid⟩ with rfl | other
    · simp only [chanOf, Function.update_self] at cleared
      exact defines_eq_none cleared
    · simp only [chanOf, Function.update_of_ne other] at cleared
      exact cleared
  · rwa [link, dif_neg valid] at cleared

/-- There are as many users as interfaces at most, so `count` does not wrap. -/
theorem Counted.counts_le (counted : s.Counted) (c : CtxtId) : s.counts c ≤ 4 := by
  rw [counted c]
  exact Refcount.users_le s.uses c

/-- What changes no link, no count and clears no channel. -/
theorem Counted.tracks_of_same (counted : s.Counted) {op : Op}
    (uses : (s.perform op).uses = s.uses) (counts : (s.perform op).counts = s.counts)
    (kept : ∀ c, (s.perform op).chanOf c = none → s.chanOf c = none)
    (other : ∀ v, op ≠ .unlink v) : s.Tracks op where
  counted := by
    rw [Counted, uses, counts]
    exact counted
  positive := fun v _ same => absurd same (other v)
  cleared := fun c defined undefined => absurd (kept c undefined) defined
  leaves := by
    rw [uses]
    exact fun c used unused => absurd unused used.ne'

theorem Counted.tracks_link (counted : s.Counted) {v : VifId} {ch : Nat}
    {chandef : Option ChanDef} (fresh : ch < nxChanCtxtCnt → s.uses v = none) :
    s.Tracks (.link v ch chandef) := by
  by_cases valid : ch < nxChanCtxtCnt
  · have free := fresh valid
    have uses := uses_link s v chandef valid
    refine ⟨?_, fun v c same => Op.noConfusion same, ?_, ?_⟩
    · change Refcount.Exact (s.link v ch chandef).uses (s.link v ch chandef).counts
      have few := counted.counts_le ⟨ch, valid⟩
      have small : s.counts ⟨ch, valid⟩ + 1 < 256 := by omega
      rw [uses, counts_link s v chandef valid, Nat.mod_eq_of_lt small]
      exact Refcount.Exact.acquire counted free _
    · exact fun c defined undefined => absurd (chanOf_link undefined) defined
    · intro c used unused
      change Refcount.users (s.link v ch chandef).uses c = 0 at unused
      rw [uses] at unused
      rcases eq_or_ne c ⟨ch, valid⟩ with rfl | other
      · rw [Refcount.users_acquire free] at unused
        omega
      · rw [Refcount.users_update_other _ fun same => other (Option.some.inj same).symm] at unused
        · exact absurd unused used.ne'
        · rw [free]
          exact (Option.some_ne_none c).symm
  · have same : s.perform (.link v ch chandef) = s := by
      change s.link v ch chandef = s
      rw [link, dif_neg valid]
    exact counted.tracks_of_same (by rw [same]) (by rw [same])
      (fun c => by rw [same]; exact id) fun v => Op.noConfusion

theorem Counted.tracks_unlink (counted : s.Counted) (v : VifId) : s.Tracks (.unlink v) := by
  have positive : ∀ w c, (Op.unlink v) = .unlink w → s.uses w = some c → 0 < s.counts c :=
    fun w c _ linked => Refcount.Exact.pos counted linked
  cases linked : s.uses v with
  | none =>
      have same : s.perform (.unlink v) = s := unlink_of_none linked
      refine ⟨by rwa [same], positive, ?_, ?_⟩
      · rw [same]
        exact fun c defined undefined => absurd undefined defined
      · rw [same]
        exact fun c used unused => absurd unused used.ne'
  | some c =>
      have uses := uses_unlink linked
      have released := Refcount.Exact.release counted linked
      have after : (s.unlink v).Counted := by
        rw [Counted, uses, counts_unlink linked]
        exact released
      have left : s.counts c - 1 = Refcount.users (s.unlink v).uses c := by
        rw [← after c, counts_unlink linked, Function.update_self]
      refine ⟨after, positive, ?_, ?_⟩
      · intro d defined undefined
        change (s.unlink v).chanOf d = none at undefined
        rw [chanOf_unlink linked] at undefined
        rcases eq_or_ne d c with rfl | other
        · rw [Function.update_self] at undefined
          split_ifs at undefined with last
          · exact ⟨Refcount.users_pos linked, by rw [← last, left]; rfl⟩
          · exact absurd undefined defined
        · rw [Function.update_of_ne other] at undefined
          exact absurd undefined defined
      · intro d used unused
        change Refcount.users (s.unlink v).uses d = 0 at unused
        change (s.unlink v).chanOf d = none
        rcases eq_or_ne d c with rfl | other
        · rw [chanOf_unlink linked, Function.update_self, left, if_pos unused]
        · rw [uses, Refcount.users_update_other _ (Option.some_ne_none d).symm] at unused
          · exact absurd unused used.ne'
          · rw [linked]
            exact fun same => other (Option.some.inj same).symm

theorem uses_setVif {v : VifId} {vif : Vif} (kept : vif.chIndex = (s.vifs v).chIndex) :
    (s.setVif v vif).uses = s.uses := by
  funext w
  rcases eq_or_ne w v with rfl | other
  · rw [uses, setVif_self, kept]
    rfl
  · rw [uses, setVif_of_ne s vif other]
    rfl

theorem radarOnCurChannel_eq (s : Hw) :
    s.radarOnCurChannel.vifs = s.vifs ∧ s.radarOnCurChannel.chanctxTable = s.chanctxTable := by
  rw [radarOnCurChannel]
  split
  · split <;> exact ⟨rfl, rfl⟩
  · exact ⟨rfl, rfl⟩

/-- The other operations leave the links and the contexts alone. -/
theorem perform_plain {op : Op} (plain : op.plain = true) :
    (s.perform op).uses = s.uses ∧ (s.perform op).chanctxTable = s.chanctxTable := by
  cases op with
  | link | unlink | setChan => cases plain
  | txqStart v reason | txqStop v reason => exact ⟨uses_setVif (Vif.mapTxqs_chIndex _ _), rfl⟩
  | apInit | apDeinit | unkInit | unkDeinit | extAuthClr | peerAdd | setCsa =>
      exact ⟨uses_setVif rfl, rfl⟩
  | radarOnCurChannel =>
      refine ⟨funext fun v => ?_, (radarOnCurChannel_eq s).2⟩
      change (s.radarOnCurChannel.vifs v).chIndex = _
      rw [(radarOnCurChannel_eq s).1]
      rfl
  | peerDel | setStaValid | setCurChanctx | radarEnable | setCac => exact ⟨rfl, rfl⟩

theorem Counted.tracks_of_plain (counted : s.Counted) {op : Op} (plain : op.plain = true) :
    s.Tracks op := by
  obtain ⟨uses, table⟩ := perform_plain (s := s) plain
  refine counted.tracks_of_same uses ?_ ?_ ?_
  · exact funext fun c => congrArg (fun table => (table c).count) table
  · intro c
    rw [chanOf, table]
    exact id
  · rintro v rfl
    cases plain

/-- An operation keeps track exactly when it links no interface that is linked. -/
theorem Counted.tracks_iff_fresh (counted : s.Counted) (op : Op) : s.Tracks op ↔ s.Fresh op := by
  cases op with
  | link v ch chandef =>
      refine ⟨fun tracks valid => ?_, counted.tracks_link⟩
      by_contra linked
      obtain ⟨c, held⟩ := Option.ne_none_iff_exists'.mp linked
      have after : Refcount.Exact (s.link v ch chandef).uses (s.link v ch chandef).counts :=
        tracks.counted
      rw [uses_link s v chandef valid, counts_link s v chandef valid] at after
      refine Refcount.Exact.not_acquire_held counted held _ ?_ after
      have few := counted.counts_le ⟨ch, valid⟩
      omega
  | unlink v => exact ⟨fun _ => trivial, fun _ => counted.tracks_unlink v⟩
  | setChan c chandef =>
      refine ⟨fun _ => trivial, fun _ => counted.tracks_of_same rfl ?_ ?_ fun v => Op.noConfusion⟩
      · refine (Function.comp_update Chanctx.count s.chanctxTable c _).trans ?_
        exact Function.update_eq_self c _
      · intro d undefined
        rcases eq_or_ne d c with rfl | other
        · simp only [chanOf, perform, Function.update_self, Option.or_eq_none_iff] at undefined
          exact undefined.1
        · simp only [chanOf, perform, Function.update_of_ne other] at undefined
          exact undefined
  | _ => exact ⟨fun _ => trivial, fun _ => counted.tracks_of_plain rfl⟩

/-! ## Handlers -/

/-- A mesh peer is established that the driver takes in. -/
def Establishes (s : Hw) (v : VifId) (staIdx : Nat) (estab : Bool) : Prop :=
  (s.vifs v).inTable = true ∧ (s.vifs v).iftype = .meshPoint ∧ staIdx < nxRemoteStaMax ∧
    (s.vifs v).userMeshPm = false ∧ estab = true ∧ s.staValid staIdx = false

/-- A connect indication, a mesh peer and a CAC find the interface without a channel context. -/
def Unlinked (s : Hw) : Event → Prop
  | .smConnect v ok _ ch chandef =>
      (s.vifs v).inTable = true → ok = true → ch < nxChanCtxtCnt → chandef ≠ none →
        s.uses v = none
  | .meshPeerUpdate v staIdx estab => s.Establishes v staIdx estab → s.uses v = none
  | .startCac v ok ch _ => ok = true → ch < nxChanCtxtCnt → s.uses v = none
  | _ => True

theorem guarded_cons {guard : Hw → Op → Prop} {op : Op} {ops : List Op} :
    Run.Guarded opStep guard (op :: ops) s ↔
      guard s op ∧ Run.Guarded opStep guard ops (s.perform op) := by
  rw [Run.Guarded, Run.forall_ok_iff (rfl : opStep s op = .ok (s.perform op))]

theorem guarded_append {guard : Hw → Op → Prop} {ops ops' : List Op} :
    Run.Guarded opStep guard (ops ++ ops') s ↔
      Run.Guarded opStep guard ops s ∧ Run.Guarded opStep guard ops' (s.performAll ops) :=
  Run.guarded_append (run_opStep s ops)

/-- Without a link nothing is linked twice. -/
theorem fresh_of_unlinking {ops : List Op} (unlinking : ∀ op ∈ ops, op.links = false) :
    Run.Guarded opStep Fresh ops s := by
  induction ops generalizing s with
  | nil => trivial
  | cons op ops induction =>
      refine guarded_cons.mpr ⟨?_, induction fun op member =>
        unlinking op (List.mem_cons_of_mem _ member)⟩
      have linkless := unlinking op List.mem_cons_self
      cases op with
      | link => cases linkless
      | _ => trivial

/-- An interface is unlinked and linked again. -/
theorem fresh_relink (s : Hw) (v : VifId) (ch : Nat) (chandef : Option ChanDef) :
    Run.Guarded opStep Fresh [.unlink v, .link v ch chandef] s := by
  refine guarded_cons.mpr ⟨trivial, guarded_cons.mpr ⟨fun _ => ?_, trivial⟩⟩
  exact uses_unlink_self s v

theorem fresh_relink_append {v : VifId} {ch : Nat} {chandef : Option ChanDef} {ops : List Op}
    (unlinking : ∀ op ∈ ops, op.links = false) :
    Run.Guarded opStep Fresh ([.unlink v, .link v ch chandef] ++ ops) s :=
  guarded_append.mpr ⟨fresh_relink s v ch chandef, fresh_of_unlinking unlinking⟩

theorem unlinking_ite {p : Prop} [Decidable p] {ops : List Op}
    (unlinking : ∀ op ∈ ops, op.links = false) :
    ∀ op ∈ if p then ops else [], op.links = false := by
  split_ifs
  · exact unlinking
  · exact List.forall_mem_nil _

theorem unlinking_txqTdlsVifInit (k : Config) (v : VifId) :
    ∀ op ∈ txqTdlsVifInit k v, op.links = false :=
  unlinking_ite (by simp [Op.links])

theorem unlinking_txqTdlsVifDeinit (k : Config) (v : VifId) :
    ∀ op ∈ txqTdlsVifDeinit k v, op.links = false :=
  unlinking_ite (by simp [Op.links])

theorem unlinking_externalAuthDisable (s : Hw) (v : VifId) :
    ∀ op ∈ s.externalAuthDisable v, op.links = false :=
  unlinking_ite (by simp [Op.links])

/-- The monitor interface is unlinked first, in whatever state the connect indication left. -/
theorem fresh_relinkMonitor (k : Config) (s s' : Hw) (ch : Nat) :
    Run.Guarded opStep Fresh (s.relinkMonitor k ch) s' := by
  rw [relinkMonitor]
  cases s.monitorVif with
  | none => trivial
  | some m =>
      cases k.monData with
      | false => trivial
      | true => exact fresh_relink s' m ch none

theorem fresh_smConnectInd (k : Config) (s : Hw) (v : VifId) (ok : Bool) (apIdx ch : Nat)
    (chandef : Option ChanDef) :
    (∀ ops, s.rxSmConnectInd k v ok apIdx ch chandef = .ok ops → Run.Guarded opStep Fresh ops s) ↔
      ((s.vifs v).inTable = true → ok = true → ch < nxChanCtxtCnt → chandef ≠ none →
        s.uses v = none) := by
  rw [rxSmConnectInd]
  by_cases absent : (s.vifs v).inTable = false
  · rw [if_pos absent]
    exact ⟨fun _ present => absurd present (by rw [absent]; exact Bool.false_ne_true),
      fun _ _ failed => nomatch failed⟩
  rw [if_neg absent]
  by_cases failed : ok = false
  · rw [if_pos failed, Run.forall_ok_iff rfl]
    exact ⟨fun _ _ succeeded => absurd succeeded (by rw [failed]; exact Bool.false_ne_true),
      fun _ => fresh_of_unlinking (unlinking_externalAuthDisable s v)⟩
  rw [if_neg failed]
  by_cases null : ch < nxChanCtxtCnt ∧ chandef = none
  · rw [if_pos null]
    exact ⟨fun _ _ _ _ defined => absurd null.2 defined, fun _ _ failed => nomatch failed⟩
  rw [if_neg null, Run.forall_ok_iff rfl, guarded_append, guarded_append,
    and_iff_left (fresh_relinkMonitor k s _ ch),
    and_iff_left (fresh_of_unlinking (unlinking_txqTdlsVifInit k v)), guarded_cons, guarded_cons,
    guarded_cons]
  constructor
  · rintro ⟨-, fresh, -⟩ - - valid -
    exact fresh valid
  · intro unlinked
    refine ⟨trivial, fun valid => ?_, trivial, trivial⟩
    exact unlinked (eq_true_of_ne_false absent) (eq_true_of_ne_false failed) valid
      fun undefined => null ⟨valid, undefined⟩

theorem fresh_meshPeerUpdateInd (s : Hw) (v : VifId) (staIdx : Nat) (estab : Bool) :
    Run.Guarded opStep Fresh (s.rxMeshPeerUpdateInd v staIdx estab) s ↔
      (s.Establishes v staIdx estab → s.uses v = none) := by
  by_cases establishes : s.Establishes v staIdx estab
  · obtain ⟨present, mesh, few, auto, established, invalid⟩ := establishes
    have ops : s.rxMeshPeerUpdateInd v staIdx estab =
        [.setStaValid staIdx true, .link v (chIdx (s.uses v)) none,
          .peerAdd v staIdx (s.txqStatus (chIdx (s.uses v)))] := by
      rw [rxMeshPeerUpdateInd, if_neg, if_neg, if_pos established, if_pos ⟨present, invalid⟩]
      · rfl
      · rw [auto]
        exact fun both => Bool.false_ne_true both.2
      · exact fun either => either.elim (fun other => other.2 mesh) (Nat.not_le.mpr few)
    rw [ops, guarded_cons, guarded_cons, guarded_cons,
      imp_iff_right ⟨present, mesh, few, auto, established, invalid⟩]
    constructor
    · rintro ⟨-, fresh, -⟩
      by_contra linked
      obtain ⟨c, held⟩ := Option.ne_none_iff_exists'.mp linked
      rw [held] at fresh
      exact linked (fresh c.isLt)
    · exact fun free => ⟨trivial, fun _ => free, trivial, trivial⟩
  · refine iff_of_true (fresh_of_unlinking ?_) fun establishes' => absurd establishes' establishes
    rw [rxMeshPeerUpdateInd]
    split_ifs with foreign user lost estab' both valid
    all_goals first | (simp [Op.links]; done) | skip
    obtain ⟨present, invalid⟩ := both
    refine absurd ⟨present, ?_, ?_, ?_, estab', invalid⟩ establishes
    · by_contra other
      exact foreign (.inl ⟨present, other⟩)
    · exact Nat.not_le.mp fun many => foreign (.inr many)
    · exact eq_false_of_ne_true fun set => user ⟨present, set⟩

theorem fresh_switchTo (s : Hw) (v : VifId) (ch : Nat) (chandef : Option ChanDef) :
    Run.Guarded opStep Fresh (s.switchTo v ch chandef) s := by
  rw [switchTo]
  split_ifs
  · exact fresh_relink_append (by simp [Op.links])
  · exact fresh_relink_append (by simp [Op.links])

theorem fresh_csaFinishInd (s : Hw) (v : VifId) (ok : Bool) (ch : Nat) :
    Run.Guarded opStep Fresh (s.rxCsaFinishInd v ok ch) s := by
  have others : Run.Guarded opStep Fresh (if ok then s.switchTo v ch none else []) s := by
    split_ifs
    · exact fresh_switchTo s v ch none
    · trivial
  rw [rxCsaFinishInd]
  cases (s.vifs v).iftype with
  | ap | p2pGo =>
      cases (s.vifs v).csa with
      | none => trivial
      | some csa => exact fresh_of_unlinking (by simp [Op.links])
  | station | p2pClient | meshPoint | monitor => exact others

theorem fresh_csaFinish (s : Hw) (v : VifId) (csa : Csa) (beacon : Bool) :
    Run.Guarded opStep Fresh (s.csaFinish v csa beacon) s := by
  rw [csaFinish, guarded_append, and_iff_left (fresh_of_unlinking (by simp [Op.links]))]
  split_ifs
  · exact fresh_switchTo s v csa.chIdx (some csa.chandef)
  · trivial

theorem fresh_sccCsaFinish (s : Hw) (v : VifId) (csa : Csa) :
    Run.Guarded opStep Fresh (s.sccCsaFinish v csa) s := by
  rw [sccCsaFinish, guarded_append, and_iff_left (fresh_of_unlinking (by simp [Op.links]))]
  split_ifs
  · exact fresh_switchTo s v csa.chIdx (some csa.chandef)
  · trivial

theorem fresh_csaWork (s : Hw) (v : VifId) (beacon : Bool) :
    Run.Guarded opStep Fresh (s.csaWork v beacon) s := by
  rw [csaWork]
  split
  · trivial
  · split_ifs
    · trivial
    · exact fresh_sccCsaFinish s v _
    · exact fresh_csaFinish s v _ beacon

theorem unlinking_channelSwitch (s : Hw) (v : VifId) (scc : Bool) (chandef : ChanDef) (ok : Bool) :
    ∀ op ∈ s.channelSwitch v scc chandef ok, op.links = false :=
  unlinking_ite (by simp [Op.links])

theorem fresh_sccCheckChanConflict (s : Hw) (v : VifId) (ok : Bool) (ops : List Op)
    (handled : s.sccCheckChanConflict v ok = .ok ops) : Run.Guarded opStep Fresh ops s := by
  obtain ⟨found, -, rfl⟩ := Run.map_eq_ok handled
  split
  · trivial
  · split_ifs
    · exact fresh_of_unlinking (unlinking_channelSwitch s v true _ ok)
    · exact fresh_relink_append (by simp [Op.links])
    · exact fresh_relink_append (by simp [Op.links])
    · trivial

theorem fresh_startRadarDetection (s : Hw) (v : VifId) (ok : Bool) (ch : Nat) (chandef : ChanDef) :
    Run.Guarded opStep Fresh (s.startRadarDetection v ok ch chandef) s ↔
      (ok = true → ch < nxChanCtxtCnt → s.uses v = none) := by
  rw [startRadarDetection, guarded_append,
    and_iff_right (fresh_of_unlinking (by simp [Op.links]))]
  cases ok with
  | false => exact iff_of_true trivial fun failed => absurd failed Bool.false_ne_true
  | true =>
      rw [if_pos rfl, guarded_append, guarded_cons, imp_iff_right rfl]
      have rest : ∀ (p : Prop) [Decidable p] (s' : Hw),
          Run.Guarded opStep Fresh (if p then [.radarEnable] else []) s' := by
        intro p _ s'
        split_ifs
        · exact ⟨trivial, fun _ _ => trivial⟩
        · trivial
      rw [and_iff_left (rest _ _)]
      exact and_iff_left trivial

theorem fresh_smDisconnectInd (k : Config) (s : Hw) (v : VifId) :
    Run.Guarded opStep Fresh (s.rxSmDisconnectInd k v) s := by
  have last : ∀ s', Run.Guarded opStep Fresh (s.externalAuthDisable v ++ [.unlink v]) s' := by
    intro s'
    refine guarded_append.mpr ⟨fresh_of_unlinking (unlinking_externalAuthDisable s v), ?_⟩
    exact fresh_of_unlinking (by simp [Op.links])
  rw [rxSmDisconnectInd]
  split
  · trivial
  rw [List.append_assoc, guarded_append, and_iff_left (last _)]
  split
  · trivial
  · rw [guarded_append, guarded_append]
    refine ⟨⟨?_, fresh_of_unlinking (unlinking_txqTdlsVifDeinit k v)⟩, ?_⟩
    · exact fresh_of_unlinking (by simp [Op.links])
    · exact fresh_of_unlinking (by simp [Op.links])

theorem fresh_chanSwitchInd (s : Hw) (ch : Nat) :
    Run.Guarded opStep Fresh (s.rxChanSwitchInd ch) s := by
  refine guarded_append.mpr ⟨fresh_of_unlinking ?_, fresh_of_unlinking (by simp [Op.links])⟩
  intro op member
  obtain ⟨v, -, rfl⟩ := List.mem_map.mp member
  rfl

theorem fresh_chanPreSwitchInd (s : Hw) (ch : Nat) :
    Run.Guarded opStep Fresh (s.rxChanPreSwitchInd ch) s := by
  apply fresh_of_unlinking
  intro op member
  obtain ⟨v, -, rfl⟩ := List.mem_map.mp member
  rfl

theorem fresh_staNotifyCsa (s : Hw) (v : VifId) (ok : Bool) (chandef : Option ChanDef)
    (ops : List Op) (handled : s.staNotifyCsa v ok chandef = .ok ops) :
    Run.Guarded opStep Fresh ops s := by
  rw [staNotifyCsa] at handled
  split at handled
  · cases handled
    trivial
  · split at handled
    · cases handled
    · cases handled
      exact fresh_of_unlinking (by simp [Op.links])

theorem fresh_radarCacWork (s : Hw) : Run.Guarded opStep Fresh s.radarCacWork s := by
  rw [radarCacWork]
  split
  · trivial
  · split <;> exact fresh_of_unlinking (by simp [Op.links])

theorem fresh_radarCancelCac (s : Hw) : Run.Guarded opStep Fresh s.radarCancelCac s := by
  rw [radarCancelCac]
  split
  · trivial
  · refine guarded_append.mpr ⟨?_, fresh_of_unlinking (by simp [Op.links])⟩
    split_ifs
    · exact fresh_of_unlinking (by simp [Op.links])
    · trivial

/-- A handler links no interface twice exactly when its event meets the condition. -/
theorem fresh_handle_iff (k : Config) (s : Hw) (e : Event) :
    (∀ ops, s.handle k e = .ok ops → Run.Guarded opStep Fresh ops s) ↔ s.Unlinked e := by
  have always : ∀ {ops}, Run.Guarded opStep Fresh ops s →
      ((∀ ops', (.ok ops : Except Fault (List Op)) = .ok ops' → Run.Guarded opStep Fresh ops' s) ↔
        True) :=
    fun fresh => iff_of_true ((Run.forall_ok_iff rfl).mpr fresh) trivial
  cases e with
  | chanPreSwitch ch => exact always (fresh_chanPreSwitchInd s ch)
  | chanSwitch ch => exact always (fresh_chanSwitchInd s ch)
  | smConnect v ok apIdx ch chandef => exact fresh_smConnectInd k s v ok apIdx ch chandef
  | smDisconnect v => exact always (fresh_smDisconnectInd k s v)
  | meshPeerUpdate v staIdx estab =>
      exact (Run.forall_ok_iff rfl).trans (fresh_meshPeerUpdateInd s v staIdx estab)
  | channelSwitch v chandef ok =>
      exact always (fresh_of_unlinking (unlinking_channelSwitch s v false chandef ok))
  | csaFinishInd v ok ch => exact always (fresh_csaFinishInd s v ok ch)
  | csaWork v beacon => exact always (fresh_csaWork s v beacon)
  | staNotifyCsa v ok chandef => exact iff_of_true (fresh_staNotifyCsa s v ok chandef) trivial
  | sccCheck v ok => exact iff_of_true (fresh_sccCheckChanConflict s v ok) trivial
  | startCac v ok ch chandef =>
      exact (Run.forall_ok_iff rfl).trans (fresh_startRadarDetection s v ok ch chandef)
  | cacWork => exact always (fresh_radarCacWork s)
  | cancelCac => exact always (fresh_radarCancelCac s)

/-! ## Runs -/

/-- Every operation of the handler keeps track, in the state in which it is performed. -/
def Tracked (k : Config) (s : Hw) (e : Event) : Prop :=
  ∀ ops, s.handle k e = .ok ops → Run.Guarded opStep Tracks ops s

theorem Counted.opStep_counted (counted : s.Counted) {op : Op} {next : Hw} (fresh : s.Fresh op)
    (stepped : opStep s op = .ok next) : next.Counted := by
  obtain rfl := Except.ok.inj stepped
  exact ((counted.tracks_iff_fresh op).mpr fresh).counted

theorem Counted.tracked_iff (counted : s.Counted) (k : Config) (e : Event) :
    s.Tracked k e ↔ s.Unlinked e := by
  rw [← fresh_handle_iff k s e]
  refine forall₂_congr fun ops _ => ?_
  exact Run.guarded_iff_of_invariant
    (fun state op next held fresh stepped => held.opStep_counted fresh stepped)
    (fun state op held => held.tracks_iff_fresh op) counted

/-- A step that meets the condition keeps every count. -/
theorem Counted.step_counted (counted : s.Counted) {k : Config} {e : Event} {next : Hw}
    (unlinked : s.Unlinked e) (stepped : s.step k e = .ok next) : next.Counted := by
  obtain ⟨ops, handled, rfl⟩ := Run.map_eq_ok stepped
  have fresh := (fresh_handle_iff k s e).mpr unlinked ops handled
  have preserved : ∀ (state : Hw) (op : Op), state.Counted → state.Fresh op →
      ∃ next, opStep state op = .ok next ∧ next.Counted :=
    fun state op held fresh => ⟨_, rfl, held.opStep_counted fresh rfl⟩
  obtain ⟨final, ran, kept⟩ := Run.run_of_invariant preserved fresh counted
  rw [run_opStep] at ran
  obtain rfl := Except.ok.inj ran
  exact kept

/-- A mesh point on the first context. -/
def meshed : Hw :=
  ((idle.setVif 0 { idle.vifs 0 with iftype := .meshPoint }).link 0 0 (some channel1))

theorem counted_of_forall (counted : ∀ c, s.counts c = (Finset.univ.filter fun v =>
    s.uses v = some c).card) : s.Counted := counted

theorem idle_counted : idle.Counted := counted_of_forall (by decide)

theorem meshed_counted : meshed.Counted := counted_of_forall (by decide)

/-- Over a whole run, the counts and the channels are kept track of exactly when no connect
indication, mesh peer or CAC links an interface that is linked. -/
theorem tracked_iff_unlinked (k : Config) (s : Hw) (counted : s.Counted) (events : List Event) :
    Run.Guarded (step k) (Tracked k) events s ↔ Run.Guarded (step k) Unlinked events s :=
  Run.guarded_iff_of_invariant
    (fun _ _ _ held unlinked stepped => held.step_counted unlinked stepped)
    (fun _ e held => held.tracked_iff k e) counted

/-- A connection that ends. -/
theorem tracked_iff_unlinked_connection :
    idle.Counted ∧ (Run.Guarded (step ⟨false, true⟩) (Tracked ⟨false, true⟩)
      [.smConnect 0 true 0 0 (some channel1), .smDisconnect 0] idle ↔
        Run.Guarded (step ⟨false, true⟩) Unlinked
          [.smConnect 0 true 0 0 (some channel1), .smDisconnect 0] idle) :=
  ⟨idle_counted, tracked_iff_unlinked ⟨false, true⟩ idle idle_counted _⟩

/-- A mesh point on a context takes in a peer, and the context counts it once more. -/
theorem peer_counted_again :
    ¬Run.Guarded (step ⟨false, true⟩) (Tracked ⟨false, true⟩) [.meshPeerUpdate 0 3 true]
        meshed := by
  intro tracked
  have unlinked := (meshed_counted.tracked_iff ⟨false, true⟩ _).mp tracked.1
  have establishes : meshed.Establishes 0 3 true := ⟨rfl, rfl, by decide, rfl, rfl, rfl⟩
  exact Option.some_ne_none _ (unlinked establishes)

end Hw

end AmlW2.Chan
