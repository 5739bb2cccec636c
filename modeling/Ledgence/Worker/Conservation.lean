import Ledgence.Worker.Operations
import Mathlib.Data.List.Perm.Basic

/-! Every occupied slot has one token, which one operation or one list of the pool holds. -/
open Kit Kit.Checked

namespace Ledgence
namespace WorkerPool

def Fault.Any : Fault → Prop := fun _ => True

structure Holding where
  slot : Nat
  key : Option SessionKey
  deriving DecidableEq

def Idle.holding (session : Idle) : Holding := ⟨session.slot.id, some session.key⟩

def SlotToken.holding (slot : SlotToken) : Holding := ⟨slot.id, none⟩

def Stage.holdings : Stage → List Holding
  | .replacing _ session _ | .owned session | .retiring session _ | .stopping session _ =>
    [session.holding]
  | .reserved _ slot _ => [slot.holding]
  | .starting request slot => [⟨slot.id, some request.key⟩]
  | .admitted | .draining | .sampled _ | .checking | .stopped _ => []

def Pool.holdings (pool : Pool) : List Holding :=
  pool.idle.map Idle.holding ++ pool.quarantined.map Idle.holding ++
    pool.unresolvedStarts.map SlotToken.holding

def Records (slots : OrderedMap Nat SlotObservation) (slot : Nat) (key : SessionKey) : Prop :=
  ∃ o, slots.find slot = some o ∧ o.digest = some key.digest ∧ o.scope = some key.scope

/-- The tokens account for the slots. -/
structure Sound (concurrency : Nat) (slots : OrderedMap Nat SlotObservation) (all : List Holding) :
    Prop where
  bounded : ∀ id ∈ slots.keys, id < concurrency
  tokens : (all.map Holding.slot).Perm slots.keys
  recorded : ∀ h ∈ all, ∀ key ∈ h.key, Records slots h.slot key

variable {c : Nat} {slots : OrderedMap Nat SlotObservation} {all rest : List Holding} {h : Holding}
  {id : Nat} {o : SlotObservation} {f : SlotObservation → SlotObservation} {key : SessionKey}

theorem Sound.perm (sound : Sound c slots all) (perm : all.Perm rest) : Sound c slots rest where
  bounded := sound.bounded
  tokens := (perm.map _).symm.trans sound.tokens
  recorded h mem := sound.recorded h (perm.mem_iff.mpr mem)

theorem Sound.nodup (sound : Sound c slots all) : (all.map Holding.slot).Nodup :=
  sound.tokens.nodup_iff.mpr OrderedMap.keys_nodup

theorem Sound.occupied (sound : Sound c slots all) (mem : h ∈ all) : h.slot ∈ slots.keys :=
  sound.tokens.mem_iff.mp (List.mem_map_of_mem mem)

theorem Sound.apart (sound : Sound c slots (h :: rest)) : ∀ h' ∈ rest, h'.slot ≠ h.slot := by
  intro h' mem same
  have nodup := sound.nodup
  rw [List.map_cons, List.nodup_cons] at nodup
  exact nodup.1 (same ▸ List.mem_map_of_mem mem)

theorem Sound.modify (sound : Sound c slots all) (id : Nat)
    (same : ∀ o, (f o).digest = o.digest ∧ (f o).scope = o.scope) :
    Sound c (slots.modify id f) all where
  bounded := by simpa using sound.bounded
  tokens := by simpa using sound.tokens
  recorded h mem key known := by
    obtain ⟨o, found, digest, scope⟩ := sound.recorded h mem key known
    by_cases here : h.slot = id
    · refine ⟨f o, ?_, (same o).1.trans digest, (same o).2.trans scope⟩
      rw [← here, OrderedMap.find_modify_self, found, Option.map_some]
    · exact ⟨o, by rw [OrderedMap.find_modify_other here, found], digest, scope⟩

/-- A process that starts on its slot is recorded under the key it is for. -/
theorem Sound.starting (sound : Sound c slots (⟨id, none⟩ :: rest))
    (digest : ∀ o, (f o).digest = some key.digest) (scope : ∀ o, (f o).scope = some key.scope) :
    Sound c (slots.modify id f) (⟨id, some key⟩ :: rest) where
  bounded := by simpa using sound.bounded
  tokens := by simpa using sound.tokens
  recorded h mem key' known := by
    obtain rfl | later := List.mem_cons.mp mem
    · obtain rfl : key = key' := by simpa using known
      obtain ⟨o, found⟩ := OrderedMap.find_of_mem_keys (sound.occupied (List.mem_cons_self ..))
      refine ⟨f o, ?_, digest o, scope o⟩
      rw [OrderedMap.find_modify_self, found, Option.map_some]
    · obtain ⟨o, found, digest', scope'⟩ := sound.recorded h (by simp [later]) key' known
      have other : h.slot ≠ id := sound.apart h later
      exact ⟨o, by rw [OrderedMap.find_modify_other other, found], digest', scope'⟩

theorem Sound.erase (sound : Sound c slots (h :: rest)) : Sound c (slots.erase h.slot) rest where
  bounded id mem := by
    rw [OrderedMap.keys_erase] at mem
    exact sound.bounded id (List.mem_filter.mp mem).1
  tokens := by
    have kept : (h.slot :: rest.map Holding.slot).filter (fun id => id ≠ h.slot) =
        rest.map Holding.slot := by
      rw [List.filter_cons_of_neg (by simp), List.filter_eq_self]
      intro id mem
      obtain ⟨h', there, rfl⟩ := List.mem_map.mp mem
      simpa using sound.apart h' there
    rw [OrderedMap.keys_erase, ← kept]
    exact sound.tokens.filter _
  recorded h' mem key known := by
    obtain ⟨o, found, same⟩ := sound.recorded h' (by simp [mem]) key known
    exact ⟨o, by rw [OrderedMap.find_erase_other (sound.apart h' mem), found], same⟩

theorem Sound.insert (sound : Sound c slots all) (absent : id ∉ slots.keys) (below : id < c) :
    Sound c (slots.insert id o) (⟨id, none⟩ :: all) where
  bounded id' mem := by
    obtain rfl | old := List.mem_cons.mp ((OrderedMap.keys_insert absent).mem_iff.mp mem)
    · exact below
    · exact sound.bounded id' old
  tokens := (sound.tokens.cons id).trans (OrderedMap.keys_insert absent).symm
  recorded h mem key known := by
    obtain rfl | old := List.mem_cons.mp mem
    · cases known
    · obtain ⟨o, found, same⟩ := sound.recorded h old key known
      have other : h.slot ≠ id := fun here => absent (here ▸ sound.occupied old)
      exact ⟨o, by rw [OrderedMap.find_insert_other other, found], same⟩

theorem Sound.forget (sound : Sound c slots (⟨id, some key⟩ :: rest)) :
    Sound c slots (⟨id, none⟩ :: rest) where
  bounded := sound.bounded
  tokens := sound.tokens
  recorded h mem key' known := by
    obtain rfl | old := List.mem_cons.mp mem
    · cases known
    · exact sound.recorded h (by simp [old]) key' known

theorem leastFree_spec (id : Nat) {occupied : List Nat} (ascending : occupied.Pairwise (· < ·))
    (above : ∀ k ∈ occupied, id ≤ k) :
    leastFree id occupied ∉ occupied ∧ (∀ k, id ≤ k → k < leastFree id occupied → k ∈ occupied) ∧
      id ≤ leastFree id occupied ∧ leastFree id occupied ≤ id + occupied.length := by
  induction occupied generalizing id with
  | nil => simp [leastFree]
  | cons first rest ih =>
    have ⟨later, ascending'⟩ := List.pairwise_cons.mp ascending
    rw [leastFree]
    split
    · rename_i here
      subst here
      have ⟨free, least, beyond, short⟩ := ih (first + 1) ascending' later
      have beyond : first < leastFree (first + 1) rest := beyond
      refine ⟨?_, fun k low high => ?_, beyond.le, ?_⟩
      · simp [free, beyond.ne']
      · by_cases same : k = first
        · simp [same]
        · simp [least k (by omega) high]
      · simp only [List.length_cons]
        omega
    · rename_i gap
      refine ⟨fun mem => ?_, fun k low high => by omega, Nat.le_refl _, by omega⟩
      obtain rfl | there := List.mem_cons.mp mem
      · exact gap rfl
      · have least := above first (by simp)
        have beyond := later id there
        omega

end WorkerPool
end Ledgence

/-! Each critical section hands the tokens on: none is lost, and none is used twice. -/

namespace Ledgence
namespace WorkerPool
variable {c : Nat} {pool : Pool} {others : List Holding} {session : Idle} {slot : SlotToken}
  {request : SessionRequest} {key : SessionKey}

theorem pop_perm {α : Type} {xs ys : List α} {a : α} (popped : pop xs = some (a, ys)) :
    (a :: ys).Perm xs := by
  rw [pop, Option.map_eq_some_iff] at popped
  obtain ⟨last, found, same⟩ := popped
  obtain ⟨before, rfl⟩ := List.getLast?_eq_some_iff.mp found
  simp only [List.dropLast_concat, Prod.mk.injEq] at same
  obtain ⟨rfl, rfl⟩ := same
  exact (List.perm_append_singleton _ _).symm

theorem swapRemove_perm {α : Type} {xs : List α} {i : Nat} {a : α} (there : xs[i]? = some a) :
    (a :: swapRemove i xs).Perm xs := by
  obtain ⟨inside, rfl⟩ := List.getElem?_eq_some_iff.mp there
  cases found : xs.getLast? with
  | none =>
    rw [List.getLast?_eq_none_iff] at found
    simp [found] at inside
  | some last =>
    obtain ⟨before, rfl⟩ := List.getLast?_eq_some_iff.mp found
    rw [swapRemove, found]
    by_cases early : i < before.length
    · have removed : ((before ++ [last]).set i last).dropLast = before.set i last := by
        rw [List.set_append_left _ _ early, List.dropLast_concat]
      simp only [removed, List.getElem_append_left early]
      have swapped := (List.set_perm_cons_eraseIdx early last).cons before[i]
      have whole := (List.getElem_cons_eraseIdx_perm early).cons last
      exact (swapped.trans (.swap ..)).trans (whole.trans (List.perm_append_singleton _ _).symm)
    · have atEnd : i = before.length := by
        simp only [List.length_append, List.length_cons, List.length_nil] at inside
        omega
      subst atEnd
      simpa using (List.perm_append_singleton last before).symm

theorem takeWarm_spec {idle : List Idle} (taken : pool.takeWarm key = some (session, idle)) :
    session.key = key ∧ (session :: idle).Perm pool.idle := by
  simp only [Pool.takeWarm, bind, Option.bind_eq_some_iff, pure, Option.some.injEq,
    Prod.mk.injEq] at taken
  obtain ⟨index, found, warm, there, rfl, rfl⟩ := taken
  refine ⟨?_, swapRemove_perm there⟩
  have matching := List.of_findIdx?_eq_some found
  simpa [there] using matching

/-- The tokens of the pool, and those held by its operations, account for the slots. -/
def Pool.Holds (c : Nat) (pool : Pool) (held : List Holding) : Prop :=
  Sound c pool.slots (held ++ pool.holdings)

/-- The slots that a step may free: their close succeeded, or their start failed cleanly. A start
that is refused before it reaches the runtime has no process either. -/
def Vacated : Stage → Event → Nat → Prop
  | .retiring session true, .close .closed, id => session.slot.id = id
  | .stopping session true, .close .closed, id => session.slot.id = id
  | .starting _ slot, .started .failed, id => slot.id = id
  | .reserved _ slot _, .start _, id => slot.id = id
  | _, _, _ => False

theorem Pool.Holds.observe {k : Option SessionKey} (holds : pool.Holds c (⟨slot.id, k⟩ :: others))
    (f : SlotObservation → SlotObservation) :
    pool.observe slot f = .ok { pool with slots := pool.slots.modify slot.id f } := by
  have mem : (⟨slot.id, k⟩ : Holding) ∈ (⟨slot.id, k⟩ :: others) ++ pool.holdings := by simp
  obtain ⟨o, found⟩ := OrderedMap.find_of_mem_keys (holds.occupied mem)
  rw [Pool.observe, found]
  rfl

theorem Pool.Holds.modified {held : List Holding} (holds : pool.Holds c held) (id : Nat)
    {f : SlotObservation → SlotObservation}
    (same : ∀ o, (f o).digest = o.digest ∧ (f o).scope = o.scope) :
    Pool.Holds c { pool with slots := pool.slots.modify id f } held :=
  Sound.modify holds id same

theorem Pool.Holds.release {k : Option SessionKey} (holds : pool.Holds c (⟨slot.id, k⟩ :: others)) :
    pool.release slot = .ok { pool with slots := pool.slots.erase slot.id } ∧
      Pool.Holds c { pool with slots := pool.slots.erase slot.id } others := by
  have mem : (⟨slot.id, k⟩ : Holding) ∈ (⟨slot.id, k⟩ :: others) ++ pool.holdings := by simp
  obtain ⟨o, found⟩ := OrderedMap.find_of_mem_keys (holds.occupied mem)
  refine ⟨?_, Sound.erase holds⟩
  rw [Pool.release, found]
  rfl

theorem Pool.Holds.quarantine (holds : pool.Holds c (session.holding :: others)) :
    ∃ p, pool.quarantine session = .ok p ∧ p.Holds c others ∧ p.slots.keys = pool.slots.keys := by
  let pending : SlotObservation → SlotObservation := fun o => { o with state := .cleanupPending }
  have marked := holds.modified session.slot.id (f := pending) fun _ => ⟨rfl, rfl⟩
  have writes := holds.observe pending
  refine ⟨{ pool with
      slots := pool.slots.modify session.slot.id pending
      quarantined := pool.quarantined ++ [session] }, ?_, Sound.perm marked ?_, OrderedMap.keys_modify⟩
  · rw [Pool.quarantine, Pool.state, writes]
    rfl
  · simp only [Pool.holdings, List.map_append, List.map_cons, List.map_nil]
    refine List.perm_iff_count.mpr fun h => ?_
    simp only [List.count_append, List.count_cons, List.count_nil]
    omega

structure Turned (c : Nat) (others : List Holding) (pool : Pool) (stage : Stage) (event : Event)
    (r : Pool × Stage) : Prop where
  holds : r.1.Holds c (r.2.holdings ++ others)
  left : ∀ id ∈ pool.slots.keys, id ∉ r.1.slots.keys → Vacated stage event id
  warm : ∀ request, event = .session request → ∀ session, r.2 = .owned session →
    session ∈ pool.idle ∧ session.key = request.key ∧
      Records pool.slots session.slot.id request.key
  running : event ≠ .check → r.2 ≠ .stopped true

variable {stage next : Stage} {event : Event}

theorem Turned.of_keys {p : Pool} (holds : p.Holds c (next.holdings ++ others))
    (keys : p.slots.keys = pool.slots.keys) (noSession : ∀ request, event ≠ .session request)
    (running : event ≠ .check → next ≠ .stopped true) :
    Turned c others pool stage event (p, next) where
  holds := holds
  left _ mem gone := absurd (keys.symm ▸ mem) gone
  warm request same := absurd same (noSession request)
  running := running

theorem reserveSlot_eq (room : pool.slots.keys.length < c) :
    ∃ id, pool.reserveSlot c = .ok ({ pool with
        slots := pool.slots.insert id { emptySlot id with state := .unknown } }, ⟨id⟩) ∧
      id < c ∧ id ∉ pool.slots.keys ∧ ∀ k < id, k ∈ pool.slots.keys := by
  have spec := leastFree_spec 0 pool.slots.ascending fun _ _ => Nat.zero_le _
  obtain ⟨free, least, -, short⟩ := spec
  have below : leastFree 0 pool.slots.keys < c := by
    have short : leastFree 0 pool.slots.keys ≤ 0 + pool.slots.keys.length := short
    omega
  refine ⟨leastFree 0 pool.slots.keys, ?_, below, free, fun k => least k (Nat.zero_le _)⟩
  rw [Pool.reserveSlot]
  exact if_neg (Nat.not_le_of_lt below)

/-- The first section of a session request: a warm session of the same key, a new slot, or a session
to retire. -/
theorem session_spec (holds : pool.Holds c others) (request : SessionRequest) :
    Ensures Fault.Any (pool.session c request)
      (Turned c others pool .admitted (.session request)) := by
  rw [Pool.session]
  split
  · rename_i session idle taken
    have ⟨same, perm⟩ := takeWarm_spec taken
    have mem : session ∈ pool.idle := perm.mem_iff.mp (by simp)
    have taken : Pool.Holds c { pool with idle } (session.holding :: others) := by
      refine Sound.perm holds (List.perm_iff_count.mpr fun h => ?_)
      have moved := (perm.map Idle.holding).count_eq h
      simp only [Pool.holdings, List.map_cons, List.count_append, List.count_cons] at moved ⊢
      omega
    let unknown : SlotObservation → SlotObservation := fun o => { o with state := .unknown }
    have writes := taken.observe unknown
    have records := holds.recorded session.holding (by
      simp only [Pool.holdings, List.mem_append, List.mem_map]
      exact .inr (.inl (.inl ⟨session, mem, rfl⟩))) session.key rfl
    rw [Pool.state, writes]
    refine ⟨taken.modified session.slot.id (f := unknown) fun _ => ⟨rfl, rfl⟩,
      fun id there gone => ?_, ?_, by simp⟩
    · have keys : (pool.slots.modify session.slot.id unknown).keys = pool.slots.keys :=
        OrderedMap.keys_modify
      exact absurd (keys ▸ there) gone
    · rintro _ ⟨⟩ _ ⟨⟩
      exact ⟨mem, same, same ▸ records⟩
  · split
    · rename_i room
      obtain ⟨id, reserved, below, absent, -⟩ := reserveSlot_eq room
      rw [reserved]
      refine ⟨Sound.insert holds absent below, fun k there gone => ?_, by simp, by simp⟩
      refine absurd ?_ gone
      exact (OrderedMap.keys_insert absent).mem_iff.mpr (List.mem_cons_of_mem id there)
    · split
      · rename_i session idle popped
        refine ⟨?_, fun id there gone => absurd there gone, by simp, by simp⟩
        refine Sound.perm holds (List.perm_iff_count.mpr fun h => ?_)
        have moved := ((pop_perm popped).map Idle.holding).count_eq h
        simp only [Pool.holdings, Stage.holdings, List.map_cons, List.count_append, List.count_cons,
          List.count_nil] at moved ⊢
        omega
      · exact ⟨holds, fun id there gone => absurd there gone, by simp, by simp⟩

theorem Turned.of_release {k : Option SessionKey} {p : Pool}
    (holds : pool.Holds c (⟨slot.id, k⟩ :: others)) (next : Stage) (idle : next.holdings = [])
    (noSession : ∀ request, event ≠ .session request) (allowed : Vacated stage event slot.id)
    (running : event ≠ .check → next ≠ .stopped true)
    (released : pool.release slot = .ok p) : Turned c others pool stage event (p, next) where
  holds := by
    have ⟨writes, rest⟩ := holds.release
    obtain rfl := Except.ok.inj (writes.symm.trans released)
    rw [idle]
    exact rest
  left id mem gone := by
    obtain rfl := Except.ok.inj (holds.release.1.symm.trans released)
    have here : id = slot.id := by
      by_contra other
      refine gone ?_
      rw [OrderedMap.keys_erase]
      exact List.mem_filter.mpr ⟨mem, by simpa using other⟩
    exact here ▸ allowed
  warm request same := absurd same (noSession request)
  running := running

theorem start_spec (holds : pool.Holds c (slot.holding :: others)) (replaced cancelled : Bool) :
    Ensures Fault.Any (pool.start request slot cancelled)
      (Turned c others pool (.reserved request slot replaced) (.start cancelled)) := by
  have released : Ensures Fault.Any (do
      let p ← pool.release slot
      return (p, Stage.admitted))
      (Turned c others pool (.reserved request slot replaced) (.start cancelled)) := by
    have writes := holds.release.1
    rw [writes]
    exact .of_release holds .admitted rfl (by simp) rfl (by simp) writes
  rw [Pool.start]
  split
  · exact released
  · rw [Pool.starting]
    cases more : checkedAdd u64Max pool.nextProcessInstance 1 with
    | none => exact released
    | some nextProcessInstance =>
      let counted : Pool := { pool with nextProcessInstance }
      have holds' : counted.Holds c (slot.holding :: others) := holds
      let shown : SlotObservation :=
        { slotId := slot.id
          state := .starting
          processInstanceId := some (procId nextProcessInstance)
          processId := none
          program := some request.program
          digest := some request.key.digest
          scope := some request.key.scope
          invocation := some (invocation request.identity) }
      have recorded : Sound c (pool.slots.modify slot.id fun _ => shown)
          (⟨slot.id, some request.key⟩ :: (others ++ pool.holdings)) :=
        Sound.starting holds (fun _ => rfl) fun _ => rfl
      simp only [okOr, ok_bind]
      rw [holds'.observe]
      exact Turned.of_keys recorded OrderedMap.keys_modify (by simp) (by simp)

theorem quarantine_spec (holds : pool.Holds c (session.holding :: others)) (next : Stage)
    (idle : next.holdings = []) (noSession : ∀ request, event ≠ .session request)
    (running : event ≠ .check → next ≠ .stopped true) : Ensures Fault.Any (do
      let p ← pool.quarantine session
      return (p, next)) (Turned c others pool stage event) := by
  obtain ⟨p, writes, rest, keys⟩ := holds.quarantine
  rw [writes]
  refine Turned.of_keys ?_ keys noSession running
  rw [idle]
  exact rest

theorem started_spec (holds : pool.Holds c (⟨slot.id, some request.key⟩ :: others))
    (outcome : StartOutcome) : Ensures Fault.Any (pool.started request slot outcome)
      (Turned c others pool (.starting request slot) (.started outcome)) := by
  cases outcome with
  | ready pid => exact .of_keys holds rfl (by simp) (by simp)
  | cleanupRequired pid =>
    have held : pool.Holds c (Idle.holding ⟨slot, request.key, pid⟩ :: others) := holds
    exact quarantine_spec held .admitted rfl (by simp) (by simp)
  | failed =>
    have writes := holds.release.1
    rw [Pool.started, writes]
    exact .of_release holds .admitted rfl (by simp) rfl (by simp) writes
  | panicked =>
    let unknown : SlotObservation → SlotObservation := fun o => { o with state := .unknown }
    have marked := holds.modified slot.id (f := unknown) fun _ => ⟨rfl, rfl⟩
    have forgotten : Sound c (pool.slots.modify slot.id unknown)
        (⟨slot.id, none⟩ :: (others ++ pool.holdings)) := Sound.forget marked
    rw [Pool.started, Pool.state, holds.observe]
    refine Turned.of_keys (Sound.perm forgotten ?_) OrderedMap.keys_modify (by simp) (by simp)
    refine List.perm_iff_count.mpr fun h => ?_
    simp only [Pool.holdings, Stage.holdings, SlotToken.holding, List.map_append, List.map_cons,
      List.map_nil, List.count_append, List.count_cons, List.count_nil]
    omega

theorem closed_spec (holds : pool.Holds c (session.holding :: others)) {outcome : CloseOutcome}
    {failed succeeded : Stage} (idle : failed.holdings = []) (idle' : succeeded.holdings = [])
    (allowed : outcome = .closed → Vacated stage (.close outcome) session.slot.id)
    (running : failed ≠ .stopped true ∧ succeeded ≠ .stopped true) :
    Ensures Fault.Any (pool.closed session outcome failed succeeded)
      (Turned c others pool stage (.close outcome)) := by
  rw [Pool.closed]
  split
  · rename_i isClosed
    have writes := Pool.Holds.release holds
    rw [writes.1]
    exact .of_release holds succeeded idle' (by simp) (allowed isClosed) (fun _ => running.2) writes.1
  · exact quarantine_spec holds failed idle (by simp) fun _ => running.1

theorem replaced_spec (holds : pool.Holds c (session.holding :: others)) (outcome : CloseOutcome) :
    Ensures Fault.Any (pool.replaced request session outcome)
      (Turned c others pool (.replacing request session true) (.close outcome)) := by
  rw [Pool.replaced]
  split
  · exact Turned.of_keys (Sound.forget holds) rfl (by simp) (by simp)
  · exact quarantine_spec holds .admitted rfl (by simp) (by simp)

theorem mark_spec (holds : pool.Holds c (session.holding :: others))
    (same : next.holdings = [session.holding]) (noSession : ∀ request, event ≠ .session request)
    (running : next ≠ .stopped true) :
    Ensures Fault.Any (pool.mark session next) (Turned c others pool stage event) := by
  let retiring : SlotObservation → SlotObservation := fun o => { o with state := .retiring }
  rw [Pool.mark, Pool.state, Pool.Holds.observe holds]
  refine Turned.of_keys ?_ OrderedMap.keys_modify noSession fun _ => running
  rw [same]
  exact holds.modified session.slot.id (f := retiring) fun _ => ⟨rfl, rfl⟩

theorem reuse_spec (holds : pool.Holds c (session.holding :: others)) :
    Ensures Fault.Any (pool.reuse session) (Turned c others pool (.owned session) .reuse) := by
  let warm : SlotObservation → SlotObservation := fun o => { o with state := .warm, invocation := none }
  have marked := holds.modified session.slot.id (f := warm) fun _ => ⟨rfl, rfl⟩
  rw [Pool.reuse, Pool.warm, Pool.Holds.observe holds]
  refine Turned.of_keys (Sound.perm marked ?_) OrderedMap.keys_modify (by simp) (by simp)
  refine List.perm_iff_count.mpr fun h => ?_
  simp only [Pool.holdings, Stage.holdings, List.map_append, List.map_cons, List.map_nil,
    List.count_append, List.count_cons, List.count_nil]
  omega

theorem execute_spec (holds : pool.Holds c (session.holding :: others)) (identity : InvocationIdentity) :
    Ensures Fault.Any (pool.executing session.slot session.pid identity) fun p =>
      Turned c others pool (.owned session) (.execute identity) (p, .owned session) := by
  let executing : SlotObservation → SlotObservation := fun o =>
    { o with state := .executing, processId := some session.pid, invocation := some (invocation identity) }
  rw [Pool.executing, Pool.Holds.observe holds]
  refine Turned.of_keys ?_ OrderedMap.keys_modify (by simp) (by simp)
  exact holds.modified session.slot.id (f := executing) fun _ => ⟨rfl, rfl⟩

/-- A session that is taken from a list of the pool is held by who took it. -/
theorem Pool.Holds.taken {before after : List Idle} {p : Pool} (holds : pool.Holds c others)
    (popped : pop before = some (session, after)) (slots : p.slots = pool.slots)
    (moved : ∀ h, p.holdings.count h + (before.map Idle.holding).count h =
      pool.holdings.count h + (after.map Idle.holding).count h) :
    p.Holds c (session.holding :: others) := by
  rw [Pool.Holds, slots]
  refine Sound.perm holds (List.perm_iff_count.mpr fun h => ?_)
  have taken := ((pop_perm popped).map Idle.holding).count_eq h
  have moved := moved h
  simp only [List.map_cons, List.count_append, List.count_cons] at taken ⊢
  omega

theorem retireIdle_spec (holds : pool.Holds c others) :
    Turned c others pool .admitted .retireIdle pool.retireIdle := by
  rw [Pool.retireIdle]
  split
  · rename_i session idle popped
    refine Turned.of_keys (holds.taken popped rfl fun h => ?_) rfl (by simp) (by simp)
    simp only [Pool.holdings, List.count_append]
    omega
  · exact Turned.of_keys holds rfl (by simp) (by simp)

theorem popAny_spec (holds : pool.Holds c others) (active expired : Bool) :
    Turned c others pool (.sampled active) (.pop expired) (pool.popAny active expired) := by
  rw [Pool.popAny]
  split
  · rename_i session quarantined popped
    refine Turned.of_keys (holds.taken popped rfl fun h => ?_) rfl (by simp) (by simp)
    simp only [Pool.holdings, List.count_append]
    omega
  · split
    · rename_i session idle popped
      refine Turned.of_keys (holds.taken popped rfl fun h => ?_) rfl (by simp) (by simp)
      simp only [Pool.holdings, List.count_append]
      omega
    · split
      · exact Turned.of_keys holds rfl (by simp) (by simp)
      · split
        · exact Turned.of_keys holds rfl (by simp) (by simp)
        · exact Turned.of_keys holds rfl (by simp) (by simp)

end WorkerPool
end Ledgence
