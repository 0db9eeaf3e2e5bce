/-
Every task is answered once.

Whatever the swarm reports, handling it does one of two things to the maps: it leaves
them as they are, or it takes one task out of its map and sends one answer (`Moves`).
Numbers are given out once, so a task waits in one map and has not been answered, and
one that has been answered waits nowhere (`Consistent`).
-/
import Autonomi.Client.Driver
import Autonomi.Lib.Transition

namespace Autonomi.Client

open Lib

variable {R V : Type}

/-! ### Record queries -/

namespace TaskHandler

variable [DecidableEq R] [DecidableEq V] {handler : TaskHandler R} {id : QueryId} {quorum : Quorum}

theorem updateGetRecord_cases (value : R → V)
    (hquery : handler.getRecord.lookup id = some quorum) (event : GetRecordEvent R) :
    let next := (handler.updateGetRecord value (fun _ => true) id event).1
    ((∃ peer record, event = .foundRecord peer record) ∧ next.getRecord = handler.getRecord ∧
        next.answers = handler.answers ∧
        ∀ i ∈ next.getRecordAccumulator, i ∈ handler.getRecordAccumulator ∨ i = id) ∨
      next.getRecord = handler.getRecord.erase id ∧
        (∃ answer, next.answers = handler.answers ++ [(id, answer)]) ∧
        ∀ i ∈ next.getRecordAccumulator, i ∈ handler.getRecordAccumulator ∧ i ≠ id := by
  have hclosed : ∀ i ∈ handler.getRecordAccumulator.erase id,
      i ∈ handler.getRecordAccumulator ∧ i ≠ id := fun i hi => (AList.mem_erase.mp hi).symm
  cases event with
  | foundRecord peer record =>
    dsimp only [updateGetRecord]
    rw [hquery]
    dsimp only
    split
    · refine .inr ?_
      simp only [sendGetRecordResult, consumeGetRecordTaskAndHolders, hquery, respond, if_true]
      refine ⟨trivial, ⟨_, rfl⟩, fun i hi => ?_⟩
      obtain ⟨hne, hmem⟩ := AList.mem_erase.mp hi
      exact ⟨((AList.mem_insert _).mp hmem).resolve_left hne, hne⟩
    · refine .inl ⟨⟨peer, record, rfl⟩, rfl, rfl, fun i hi => ?_⟩
      exact ((AList.mem_insert _).mp hi).symm
  | finished finish =>
    refine .inr ?_
    cases finish with
    | finishedWithNoAdditionalRecord =>
      simp only [updateGetRecord, sendGetRecordResult, consumeGetRecordTaskAndHolders, hquery,
        respond, if_true]
      exact ⟨trivial, ⟨_, rfl⟩, hclosed⟩
    | notFound | quorumFailed | timeout =>
      simp only [updateGetRecord, endQuery, consumeGetRecordTaskAndHolders, hquery, respond,
        if_true]
      exact ⟨trivial, ⟨_, rfl⟩, hclosed⟩

end TaskHandler

/-! ### Waiting and answered -/

inductive TaskKind
  | record
  | pending (kind : PendingKind)
deriving DecidableEq

def TaskKind.taskId : TaskKind → Nat → TaskId
  | record, id => .query id
  | pending kind, id => kind.taskId id

def TaskId.number : TaskId → Nat
  | query id => id
  | request id => id

@[simp] theorem TaskKind.number_taskId (kind : TaskKind) (id : Nat) :
    (kind.taskId id).number = id := by
  cases kind with
  | record => rfl
  | pending kind => cases kind <;> rfl

variable {kind : TaskKind}

theorem TaskKind.eq_of_taskId_eq {kind' : TaskKind} {id id' : Nat}
    (h : kind.taskId id = kind'.taskId id') : id = id' := by
  have hnumber := congrArg TaskId.number h
  rwa [number_taskId, number_taskId] at hnumber

namespace PendingTasks

variable {s s' : PendingTasks R} {kind kind' : TaskKind} {id id' : Nat} {tid : TaskId}

def Waits (s : PendingTasks R) : TaskKind → Nat → Prop
  | .record, id => id ∈ s.records.getRecord
  | .pending kind, id => id ∈ s.pending kind

/-- How many answers have been sent to the caller of a task. -/
def answersTo (s : PendingTasks R) (tid : TaskId) : Nat :=
  s.sent.countP (fun answer => answer.1 = tid) +
    s.records.answers.countP fun answer => .query answer.1 = tid

def Forgotten (s : PendingTasks R) (tid : TaskId) : Prop :=
  (∀ (kind : TaskKind) (id : Nat), kind.taskId id = tid → ¬ s.Waits kind id) ∧
    ∀ id, tid = .query id → id ∉ s.records.getRecordAccumulator

/-- Nothing happens, but that a record may be kept for an open query. -/
structure Unchanged (s s' : PendingTasks R) : Prop where
  waits : ∀ kind id, s'.Waits kind id ↔ s.Waits kind id
  answers : ∀ tid, s'.answersTo tid = s.answersTo tid
  gathers : ∀ id ∈ s'.records.getRecordAccumulator,
    id ∈ s.records.getRecordAccumulator ∨ id ∈ s.records.getRecord

structure Answered (s s' : PendingTasks R) (kind : TaskKind) (id : Nat) : Prop where
  waited : s.Waits kind id
  waits : ∀ kind' id', s'.Waits kind' id' ↔ s.Waits kind' id' ∧ ¬ (kind' = kind ∧ id' = id)
  answers : ∀ tid, s'.answersTo tid = s.answersTo tid + if kind.taskId id = tid then 1 else 0
  gathers : ∀ i ∈ s'.records.getRecordAccumulator,
    i ∈ s.records.getRecordAccumulator ∧ (kind = .record → i ≠ id)

theorem Unchanged.refl (s : PendingTasks R) : Unchanged s s :=
  ⟨fun _ _ => .rfl, fun _ => rfl, fun _ hid => .inl hid⟩

/-! ### What the updates do -/

variable {listens : TaskId → Bool}

variable {map : PendingKind} {result : map.Stored → TaskAnswer}

theorem answered_answer (h : id ∈ s.pending map) :
    Answered s (s.answer listens map id result).1 (.pending map) id := by
  obtain ⟨stored, hstored⟩ := Table.mem_iff_lookup.mp h
  unfold answer
  rw [hstored]
  refine ⟨h, fun kind' id' => ?_, fun tid => ?_, fun i hi => ⟨hi, nofun⟩⟩
  · cases kind' with
    | record => simp [Waits]
    | pending map' =>
      by_cases hmap : map' = map
      · subst hmap
        simp [Waits, AList.mem_erase, and_comm]
      · simp [Waits, hmap]
  · by_cases htid : map.taskId id = tid
    · simp [answersTo, TaskKind.taskId, htid]
      omega
    · simp [answersTo, TaskKind.taskId, htid]

theorem answer_of_notMem (h : id ∉ s.pending map) :
    s.answer listens map id result = (s, .error (.unknownQuery id)) := by
  unfold answer
  rw [AList.lookup_eq_none.mpr h]

inductive Moves (s s' : PendingTasks R) : Prop
  | unchanged (h : Unchanged s s')
  | answered (kind : TaskKind) (id : Nat) (h : Answered s s' kind id)

theorem moves_answer : Moves s (s.answer listens map id result).1 := by
  by_cases h : id ∈ s.pending map
  · exact .answered _ _ (answered_answer h)
  · rw [answer_of_notMem h]
    exact .unchanged (.refl s)

/-- The maps a failed request is looked for in. -/
def terminable : List PendingKind :=
  [.getCost, .putRecordReq, .getRecordFromPeer, .getStorageProofsFromPeer,
    .getClosestPeersFromPeer, .getMerkleCandidateQuote, .getVersion]

/-- One of the maps had the task, and it is answered; or none had it. -/
def Searched (s s' : PendingTasks R) (maps : List PendingKind) (id : Nat) : Prop :=
  (s' = s ∧ ∀ map ∈ maps, id ∉ s.pending map) ∨
    ∃ map ∈ maps, Answered s s' (.pending map) id

theorem searched_cons {maps : List PendingKind}
    {rest : PendingTasks R × Except TaskHandlerError Unit} (h : Searched s rest.1 maps id) :
    Searched s (if id ∈ s.pending map then s.answer listens map id result else rest).1
      (map :: maps) id := by
  by_cases hmem : id ∈ s.pending map
  · rw [if_pos hmem]
    exact .inr ⟨map, List.mem_cons_self, answered_answer hmem⟩
  · rw [if_neg hmem]
    rcases h with ⟨hsame, hnone⟩ | ⟨map', hmap', hanswered⟩
    · exact .inl ⟨hsame, List.forall_mem_cons.mpr ⟨hmem, hnone⟩⟩
    · exact .inr ⟨map', List.mem_cons_of_mem _ hmap', hanswered⟩

theorem searched_terminateQuery (s : PendingTasks R) (id : OutboundRequestId) (error : String) :
    Searched s (s.terminateQuery listens id error).1 terminable id := by
  iterate 7 refine searched_cons ?_
  exact .inl ⟨rfl, List.forall_mem_nil _⟩

theorem taskId_of_terminable (id : Nat) (h : map ∈ terminable) : map.taskId id = .request id := by
  cases map with
  | closestPeers | putRecordKad => exact absurd h (by decide)
  | _ => rfl

variable {error : String}

theorem moves_terminateQuery : Moves s (s.terminateQuery listens id error).1 := by
  rcases searched_terminateQuery s id error with ⟨hsame, -⟩ | ⟨map, -, hanswered⟩
  · rw [hsame]
    exact .unchanged (.refl s)
  · exact .answered _ _ hanswered

/-- A number is in one map only. -/
def Alone (s : PendingTasks R) : Prop :=
  ∀ kind kind' id, s.Waits kind id → s.Waits kind' id → kind.taskId id = kind'.taskId id →
    kind = kind'

/-! ### What the events do -/

theorem contains_of_waits (h : s.Waits kind id) (hquery : kind.taskId id = .query id) :
    s.contains id = true := by
  unfold contains
  simp only [Bool.or_eq_true, decide_eq_true_eq]
  cases kind with
  | record => exact .inl (.inr h)
  | pending map =>
    cases map with
    | closestPeers => exact .inl (.inl h)
    | putRecordKad => exact .inr h
    | _ => cases hquery

section Kad

variable [DecidableEq R] [DecidableEq V] {value : R → V}

theorem updateGetRecord_moves (value : R → V) (hopen : id ∈ s.records.getRecord)
    (event : GetRecordEvent R) :
    let next := { s with records := (s.records.updateGetRecord value (fun _ => true) id event).1 }
    ((∃ peer record, event = .foundRecord peer record) ∧ Unchanged s next) ∨
      Answered s next .record id := by
  obtain ⟨quorum, hquorum⟩ := Table.mem_iff_lookup.mp hopen
  rcases TaskHandler.updateGetRecord_cases value hquorum event with
    ⟨hfound, hrecord, hanswers, hgathers⟩ | ⟨hrecord, ⟨answer, hanswers⟩, hgathers⟩
  · refine .inl ⟨hfound, fun kind' id' => ?_, fun tid => ?_, fun i hi => ?_⟩
    · cases kind' with
      | record => simp only [Waits, hrecord]
      | pending map => exact .rfl
    · simp only [answersTo, hanswers]
    · rcases hgathers i hi with hbefore | rfl
      · exact .inl hbefore
      · exact .inr hopen
  · refine .inr ⟨hopen, fun kind' id' => ?_, fun tid => ?_, fun i hi => ?_⟩
    · cases kind' with
      | record => simp [Waits, hrecord, AList.mem_erase, and_comm]
      | pending map => simp [Waits]
    · simp only [answersTo, hanswers]
      by_cases htid : TaskId.query id = tid
      · simp [TaskKind.taskId, htid]
        omega
      · simp [TaskKind.taskId, htid]
    · obtain ⟨hbefore, hne⟩ := hgathers i hi
      exact ⟨hbefore, fun _ => hne⟩

/-- Results of a query come to the kind of query they are for. -/
def Fits (s : PendingTasks R) (id : QueryId) : QueryResult R → Prop
  | .getRecord _ => id ∉ s.pending .closestPeers ∧ id ∉ s.pending .putRecordKad
  | _ => True

instance (s : PendingTasks R) (id : QueryId) : ∀ result, Decidable (s.Fits id result)
  | .getRecord _ =>
    inferInstanceAs (Decidable (id ∉ s.pending .closestPeers ∧ id ∉ s.pending .putRecordKad))
  | .getClosestPeers _ | .putRecord _ | .other => .isTrue trivial

theorem moves_handleKadProgressEvent {result : QueryResult R} (hfits : s.Fits id result) :
    Moves s (s.handleKadProgressEvent value listens id result) := by
  unfold handleKadProgressEvent
  by_cases hcontains : s.contains id = true
  · rw [if_pos hcontains]
    cases result with
    | getClosestPeers res => exact moves_answer
    | getRecord event =>
      simp only [contains, Bool.or_eq_true, decide_eq_true_eq, hfits.1, hfits.2, false_or,
        or_false] at hcontains
      rcases updateGetRecord_moves value hcontains event with ⟨-, hsame⟩ | hanswered
      · exact .unchanged hsame
      · exact .answered _ _ hanswered
    | putRecord res => exact moves_answer
    | other => exact .unchanged (.refl s)
  · rw [if_neg hcontains]
    exact .unchanged (.refl s)

end Kad

section Requests

variable {client : Client} {developer : Bool}

theorem handle_getStoreQuote (halone : s.Alone) (hcontains : s.containsQuery developer id = true)
    (quote : QuoteResponse) (storageProofs : StorageProofs) :
    s.handleRequestRespEvent client developer listens id (.getStoreQuote quote storageProofs) =
      if id ∈ s.pending .getCost then (s.updateGetQuote client listens id quote).1
      else (s.updateGetStorageProofsFromPeer listens id quote.quote.toOption storageProofs).1 := by
  unfold handleRequestRespEvent
  rw [if_pos hcontains]
  dsimp only
  by_cases hcost : id ∈ s.pending .getCost
  · rw [if_pos hcost]
    cases (s.updateGetQuote client listens id quote).2 with
    | ok _ => rfl
    | error e =>
      -- The quote could not be delivered; nobody waits for proofs under this number.
      have hanswered : Answered s (s.updateGetQuote client listens id quote).1
          (.pending .getCost) id := answered_answer hcost
      have hnone : id ∉ (s.updateGetQuote client listens id quote).1.pending
          .getStorageProofsFromPeer := fun hproofs =>
        absurd (halone (.pending .getCost) (.pending .getStorageProofsFromPeer) id hcost
          ((hanswered.waits (.pending .getStorageProofsFromPeer) id).mp hproofs).1 rfl) (by decide)
      unfold updateGetStorageProofsFromPeer
      rw [answer_of_notMem hnone]
  · rw [if_neg hcost]
    have hunknown : s.updateGetQuote client listens id quote = (s, .error (.unknownQuery id)) :=
      answer_of_notMem hcost
    rw [hunknown]

theorem moves_handleRequestRespEvent (halone : s.Alone) {response : QueryResponse} :
    Moves s (s.handleRequestRespEvent client developer listens id response) := by
  by_cases hcontains : s.containsQuery developer id = true
  · cases response with
    | getStoreQuote quote storageProofs =>
      rw [handle_getStoreQuote halone hcontains]
      by_cases hcost : id ∈ s.pending .getCost
      · rw [if_pos hcost]
        exact moves_answer
      · rw [if_neg hcost]
        exact moves_answer
    | devGetClosestPeersFromNetwork response =>
      unfold handleRequestRespEvent
      rw [if_pos hcontains]
      cases developer with
      | false => exact moves_terminateQuery
      | true => exact moves_answer
    | other =>
      unfold handleRequestRespEvent
      rw [if_pos hcontains]
      exact moves_terminateQuery
    | _ =>
      unfold handleRequestRespEvent
      rw [if_pos hcontains]
      exact moves_answer
  · unfold handleRequestRespEvent
    rw [if_neg hcontains]
    exact .unchanged (.refl s)

theorem moves_handleRequestRespOutboundFailure :
    Moves s (s.handleRequestRespOutboundFailure developer listens id error) := by
  unfold handleRequestRespOutboundFailure
  by_cases hcontains : s.containsQuery developer id = true
  · rw [if_pos hcontains]
    exact moves_terminateQuery
  · rw [if_neg hcontains]
    exact .unchanged (.refl s)

end Requests

/-! ### Tasks that are put in -/

/-- A task is put into a map, unless it is passed over. -/
structure Inserted (s s' : PendingTasks R) (chosen : Option TaskKind) (id : Nat) : Prop where
  waits : ∀ kind' id', s'.Waits kind' id' ↔ s.Waits kind' id' ∨ chosen = some kind' ∧ id' = id
  answers : ∀ tid, s'.answersTo tid = s.answersTo tid
  gathers : ∀ i ∈ s'.records.getRecordAccumulator, i ∈ s.records.getRecordAccumulator

theorem inserted_none : Inserted s s none id :=
  ⟨fun _ _ => by simp, fun _ => rfl, fun _ hi => hi⟩

theorem inserted_insert {stored : map.Stored} :
    Inserted s (s.insert map id stored) (some (.pending map)) id := by
  refine ⟨fun kind' id' => ?_, fun _ => rfl, fun _ hi => hi⟩
  cases kind' with
  | record => simp [Waits, insert]
  | pending map' =>
    by_cases hmap : map' = map
    · subst hmap
      simp [Waits, insert, or_comm]
    · simp [Waits, insert, hmap, Ne.symm hmap]

end PendingTasks

def NetworkTask.queryKind : NetworkTask → Option TaskKind
  | getClosestPeers => some (.pending .closestPeers)
  | getRecord _ => some .record
  | putRecordKad => some (.pending .putRecordKad)
  | _ => none

def NetworkTask.requestKind (developer : Bool) : NetworkTask → Option TaskKind
  | getQuote _ _ => some (.pending .getCost)
  | putRecordReq _ => some (.pending .putRecordReq)
  | getVersion => some (.pending .getVersion)
  | getRecordFromPeer => some (.pending .getRecordFromPeer)
  | getStorageProofsFromPeer => some (.pending .getStorageProofsFromPeer)
  | getClosestPeersFromPeer => some (.pending .getClosestPeersFromPeer)
  | getMerkleCandidateQuote => some (.pending .getMerkleCandidateQuote)
  | devGetClosestPeersFromNetwork =>
    if developer then some (.pending .devGetClosestPeersFromNetwork) else none
  | _ => none

namespace PendingTasks

variable {s : PendingTasks R} {developer : Bool}

theorem inserted_insertTask (id : QueryId) (task : NetworkTask) :
    Inserted s (s.insertTask id task) task.queryKind id := by
  cases task with
  | getClosestPeers | putRecordKad => exact inserted_insert
  | getRecord quorum =>
    refine ⟨fun kind' id' => ?_, fun _ => rfl, fun _ hi => hi⟩
    cases kind' with
    | record => simp [Waits, insertTask, TaskHandler.insertTask, NetworkTask.queryKind, or_comm]
    | pending map => simp [Waits, insertTask, NetworkTask.queryKind]
  | _ => exact inserted_none

theorem inserted_insertQuery (id : OutboundRequestId) (task : NetworkTask) :
    Inserted s (s.insertQuery developer id task) (task.requestKind developer) id := by
  cases task with
  | getClosestPeers | getRecord quorum | putRecordKad => exact inserted_none
  | devGetClosestPeersFromNetwork =>
    cases developer with
    | false => exact inserted_none
    | true => exact inserted_insert
  | _ => exact inserted_insert

end PendingTasks

theorem NetworkTask.taskId_of_queryKind {task : NetworkTask} (id : Nat)
    (h : task.queryKind = some kind) : kind.taskId id = .query id := by
  cases task <;> cases h <;> rfl

theorem NetworkTask.taskId_of_requestKind {developer : Bool} {task : NetworkTask} (id : Nat)
    (h : task.requestKind developer = some kind) :
    kind.taskId id = .request id := by
  cases task with
  | devGetClosestPeersFromNetwork =>
    cases developer with
    | false => cases h
    | true =>
      cases h
      rfl
  | _ => cases h <;> rfl

/-! ### Whole runs -/

namespace NetworkDriver

open PendingTasks

/-- A task waits in one map and has no answer; one that has its answer waits nowhere. -/
structure Consistent (d : NetworkDriver R) : Prop where
  opened : ∀ kind id, d.pendingTasks.Waits kind id → kind.taskId id ∈ d.handedOut
  alone : d.pendingTasks.Alone
  unanswered : ∀ kind id, d.pendingTasks.Waits kind id →
    d.pendingTasks.answersTo (kind.taskId id) = 0
  once : ∀ tid, d.pendingTasks.answersTo tid ≤ 1
  fresh : ∀ tid, tid ∉ d.handedOut → d.pendingTasks.answersTo tid = 0
  gathers : ∀ id ∈ d.pendingTasks.records.getRecordAccumulator,
    id ∈ d.pendingTasks.records.getRecord

variable {d d' : NetworkDriver R} {s : PendingTasks R} {kind : TaskKind} {id : Nat}

theorem consistent_new : (new : NetworkDriver R).Consistent where
  opened kind id h := by cases kind <;> exact absurd h (AList.notMem_empty _)
  alone kind kind' id h := by cases kind <;> exact absurd h (AList.notMem_empty _)
  unanswered kind id h := by cases kind <;> exact absurd h (AList.notMem_empty _)
  once _ := Nat.zero_le 1
  fresh _ _ := rfl
  gathers id h := absurd h (AList.notMem_empty _)

theorem Consistent.unchanged (h : d.Consistent) (hsame : Unchanged d.pendingTasks s) :
    Consistent { d with pendingTasks := s } where
  opened kind id hwaits := h.opened kind id ((hsame.waits kind id).mp hwaits)
  alone kind kind' id hwaits hwaits' :=
    h.alone kind kind' id ((hsame.waits kind id).mp hwaits) ((hsame.waits kind' id).mp hwaits')
  unanswered kind id hwaits := by
    rw [hsame.answers]
    exact h.unanswered kind id ((hsame.waits kind id).mp hwaits)
  once tid := by
    rw [hsame.answers]
    exact h.once tid
  fresh tid htid := by
    rw [hsame.answers]
    exact h.fresh tid htid
  gathers i hi := (hsame.waits .record i).mpr ((hsame.gathers i hi).elim (h.gathers i) id)

theorem Consistent.answered (h : d.Consistent) (hanswered : Answered d.pendingTasks s kind id) :
    Consistent { d with pendingTasks := s } where
  opened kind' id' hwaits := h.opened kind' id' ((hanswered.waits kind' id').mp hwaits).1
  alone kind₁ kind₂ id' hwaits₁ hwaits₂ :=
    h.alone kind₁ kind₂ id' ((hanswered.waits kind₁ id').mp hwaits₁).1
      ((hanswered.waits kind₂ id').mp hwaits₂).1
  unanswered kind' id' hwaits := by
    obtain ⟨hbefore, hother⟩ := (hanswered.waits kind' id').mp hwaits
    rw [hanswered.answers, h.unanswered kind' id' hbefore, if_neg]
    -- Another task with the same number would have been in two maps.
    intro hsame
    obtain rfl := TaskKind.eq_of_taskId_eq hsame
    exact hother ⟨h.alone kind' kind id hbefore hanswered.waited hsame.symm, rfl⟩
  once tid := by
    rw [hanswered.answers]
    by_cases htid : kind.taskId id = tid
    · rw [if_pos htid, ← htid, h.unanswered kind id hanswered.waited]
    · rw [if_neg htid]
      exact h.once tid
  fresh tid htid := by
    rw [hanswered.answers, h.fresh tid htid, if_neg]
    rintro rfl
    exact htid (h.opened kind id hanswered.waited)
  gathers i hi := by
    obtain ⟨hbefore, hother⟩ := hanswered.gathers i hi
    exact (hanswered.waits .record i).mpr
      ⟨h.gathers i hbefore, fun hsame => hother hsame.1.symm hsame.2⟩

theorem Consistent.inserted (h : d.Consistent) {chosen : Option TaskKind} {tid : TaskId}
    (hinserted : Inserted d.pendingTasks s chosen id) (hnew : tid ∉ d.handedOut)
    (hchosen : ∀ kind, chosen = some kind → kind.taskId id = tid) :
    Consistent ⟨s, tid :: d.handedOut⟩ where
  opened kind' id' hwaits := by
    rcases (hinserted.waits kind' id').mp hwaits with hbefore | ⟨hkind, rfl⟩
    · exact List.mem_cons_of_mem _ (h.opened kind' id' hbefore)
    · rw [hchosen kind' hkind]
      exact List.mem_cons_self
  alone kind₁ kind₂ id' hwaits₁ hwaits₂ hsame := by
    rcases (hinserted.waits kind₁ id').mp hwaits₁ with hbefore₁ | ⟨hkind₁, rfl⟩
    · rcases (hinserted.waits kind₂ id').mp hwaits₂ with hbefore₂ | ⟨hkind₂, rfl⟩
      · exact h.alone kind₁ kind₂ id' hbefore₁ hbefore₂ hsame
      · exact absurd (hchosen kind₂ hkind₂ ▸ hsame ▸ h.opened kind₁ id' hbefore₁) hnew
    · rcases (hinserted.waits kind₂ id').mp hwaits₂ with hbefore₂ | ⟨hkind₂, -⟩
      · exact absurd (hchosen kind₁ hkind₁ ▸ hsame ▸ h.opened kind₂ id' hbefore₂) hnew
      · exact Option.some.inj (hkind₁.symm.trans hkind₂)
  unanswered kind' id' hwaits := by
    rw [hinserted.answers]
    rcases (hinserted.waits kind' id').mp hwaits with hbefore | ⟨hkind, rfl⟩
    · exact h.unanswered kind' id' hbefore
    · exact h.fresh _ (hchosen kind' hkind ▸ hnew)
  once tid' := by
    rw [hinserted.answers]
    exact h.once tid'
  fresh tid' htid' := by
    rw [hinserted.answers]
    exact h.fresh tid' fun hmem => htid' (List.mem_cons_of_mem _ hmem)
  gathers i hi := (hinserted.waits .record i).mpr (.inl (h.gathers i (hinserted.gathers i hi)))

theorem Consistent.forgotten {tid : TaskId} (h : d.Consistent)
    (hone : d.pendingTasks.answersTo tid = 1) :
    d.pendingTasks.Forgotten tid := by
  refine ⟨?_, ?_⟩
  · rintro kind id rfl hwaits
    rw [h.unanswered kind id hwaits] at hone
    cases hone
  · rintro id rfl hgathered
    have hnone := h.unanswered .record id (h.gathers id hgathered)
    rw [TaskKind.taskId, hone] at hnone
    cases hnone

/-- Results fit their queries, and no request of a developer's task fails. -/
def Orderly (d : NetworkDriver R) : DriverEvent R → Prop
  | .queryProgressed id result => d.pendingTasks.Fits id result
  | .outboundFailure id _ => id ∉ d.pendingTasks.pending .devGetClosestPeersFromNetwork
  | _ => True

instance (d : NetworkDriver R) : ∀ event, Decidable (d.Orderly event)
  | .queryProgressed id result => inferInstanceAs (Decidable (d.pendingTasks.Fits id result))
  | .outboundFailure id _ =>
    inferInstanceAs (Decidable (id ∉ d.pendingTasks.pending .devGetClosestPeersFromNetwork))
  | .insertTask _ _ | .insertQuery _ _ | .response _ _ => .isTrue trivial

variable [DecidableEq R] [DecidableEq V] {value : R → V} {client : Client} {developer : Bool}
  {listens : TaskId → Bool} {event : DriverEvent R} {tid : TaskId}

variable (h : d.Consistent) (horderly : d.Orderly event)
  (hstep : d.step value client developer listens event = some d')

include h horderly hstep

/-- What a step does: a task with a new number is put in, or events are handled. -/
theorem step_cases :
    (∃ chosen id tid, tid ∉ d.handedOut ∧ (∀ kind, chosen = some kind → kind.taskId id = tid) ∧
        Inserted d.pendingTasks d'.pendingTasks chosen id ∧ d'.handedOut = tid :: d.handedOut) ∨
      Moves d.pendingTasks d'.pendingTasks ∧ d'.handedOut = d.handedOut := by
  cases event with
  | insertTask id task =>
    obtain ⟨hnew, hd'⟩ := Option.ite_none_left_eq_some.mp hstep
    cases hd'
    exact .inl ⟨_, id, _, hnew, fun _ => NetworkTask.taskId_of_queryKind id,
      inserted_insertTask id task, rfl⟩
  | insertQuery id task =>
    obtain ⟨hnew, hd'⟩ := Option.ite_none_left_eq_some.mp hstep
    obtain rfl := Option.some.inj hd'
    exact .inl ⟨_, id, _, hnew, fun _ => NetworkTask.taskId_of_requestKind id,
      inserted_insertQuery id task, rfl⟩
  | queryProgressed id result =>
    cases hstep
    exact .inr ⟨moves_handleKadProgressEvent horderly, rfl⟩
  | response id response =>
    cases hstep
    exact .inr ⟨moves_handleRequestRespEvent h.alone, rfl⟩
  | outboundFailure id error =>
    cases hstep
    exact .inr ⟨moves_handleRequestRespOutboundFailure, rfl⟩

theorem Consistent.step : d'.Consistent := by
  obtain ⟨tasks, handedOut⟩ := d'
  rcases step_cases h horderly hstep with ⟨_, _, _, hnew, hchosen, hinserted, rfl⟩ | ⟨hmoves, rfl⟩
  · exact h.inserted hinserted hnew hchosen
  · cases hmoves with
    | unchanged hsame => exact h.unchanged hsame
    | answered kind id hanswered => exact h.answered hanswered

theorem answersTo_le_step :
    d.pendingTasks.answersTo tid ≤ d'.pendingTasks.answersTo tid := by
  rcases step_cases h horderly hstep with ⟨_, _, _, -, -, hinserted, -⟩ | ⟨hmoves, -⟩
  · rw [hinserted.answers]
  · cases hmoves with
    | unchanged hsame => rw [hsame.answers]
    | answered kind id hanswered =>
      rw [hanswered.answers]
      exact Nat.le_add_right _ _

theorem answersTo_step_of_one
    (hone : d.pendingTasks.answersTo tid = 1) : d'.pendingTasks.answersTo tid = 1 := by
  refine Nat.le_antisymm ((h.step horderly hstep).once tid) ?_
  rw [← hone]
  exact answersTo_le_step h horderly hstep

omit h horderly hstep

def Tracked (d : NetworkDriver R) (kind : TaskKind) (id : Nat) : Prop :=
  d.pendingTasks.Waits kind id ∨ d.pendingTasks.answersTo (kind.taskId id) = 1

theorem Tracked.step (htracked : d.Tracked kind id) (h : d.Consistent)
    (horderly : d.Orderly event)
    (hstep : d.step value client developer listens event = some d') : d'.Tracked kind id := by
  rcases htracked with hwaits | hone
  · rcases step_cases h horderly hstep with ⟨_, _, _, -, -, hinserted, -⟩ | ⟨hmoves, -⟩
    · exact .inl ((hinserted.waits kind id).mpr (.inl hwaits))
    · cases hmoves with
      | unchanged hsame => exact .inl ((hsame.waits kind id).mpr hwaits)
      | answered kind' id' hanswered =>
        by_cases hsame : kind = kind' ∧ id = id'
        · obtain ⟨rfl, rfl⟩ := hsame
          refine .inr ?_
          rw [hanswered.answers, h.unanswered kind id hwaits, if_pos rfl]
        · exact .inl ((hanswered.waits kind id).mpr ⟨hwaits, hsame⟩)
  · exact .inr (answersTo_step_of_one h horderly hstep hone)

end NetworkDriver

/-! ### Beginning and end of a task -/

def QueryResponse.answers : QueryResponse → PendingKind → Bool
  | getStoreQuote _ _, .getCost => true
  | getStoreQuote _ _, .getStorageProofsFromPeer => true
  | getMerkleCandidateQuote _, .getMerkleCandidateQuote => true
  | putRecord _, .putRecordReq => true
  | getVersion _, .getVersion => true
  | getReplicatedRecord _, .getRecordFromPeer => true
  | getClosestPeers _, .getClosestPeersFromPeer => true
  | devGetClosestPeersFromNetwork _, .devGetClosestPeersFromNetwork => true
  | _, _ => false

/-- A task is taken on, into this map and under this number. -/
inductive Starts (developer : Bool) : DriverEvent R → TaskKind → Nat → Prop
  | query (id : QueryId) (task : NetworkTask) (kind : TaskKind) (h : task.queryKind = some kind) :
      Starts developer (.insertTask id task) kind id
  | request (id : OutboundRequestId) (task : NetworkTask) (kind : TaskKind)
      (h : task.requestKind developer = some kind) :
      Starts developer (.insertQuery id task) kind id

/-- The last event of a task: the query is over, the response is there, or the request failed. -/
inductive Ends : DriverEvent R → TaskKind → Nat → Prop
  | closestPeers (id : QueryId) (res : Except GetClosestPeersError (List PeerInfo)) :
      Ends (.queryProgressed id (.getClosestPeers res)) (.pending .closestPeers) id
  | record (id : QueryId) (finish : KadEnd) :
      Ends (.queryProgressed id (.getRecord (.finished finish))) .record id
  | putRecordKad (id : QueryId) (res : Except PutRecordKadError Unit) :
      Ends (.queryProgressed id (.putRecord res)) (.pending .putRecordKad) id
  | response (id : OutboundRequestId) (response : QueryResponse) (map : PendingKind)
      (h : response.answers map = true) : Ends (.response id response) (.pending map) id
  | failure (id : OutboundRequestId) (error : String) (kind : TaskKind)
      (h : kind.taskId id = .request id) : Ends (.outboundFailure id error) kind id

namespace PendingTasks

variable {s : PendingTasks R} {id : Nat} {developer : Bool} {client : Client}
  {listens : TaskId → Bool}

variable {map : PendingKind}

theorem containsQuery_of_mem (h : id ∈ s.pending map) (hrequest : map.taskId id = .request id)
    (hdeveloper : map = .devGetClosestPeersFromNetwork → developer = true) :
    s.containsQuery developer id = true := by
  unfold containsQuery
  simp only [Bool.or_eq_true, Bool.and_eq_true, decide_eq_true_eq]
  cases map with
  | closestPeers | putRecordKad => cases hrequest
  | devGetClosestPeersFromNetwork => exact .inr ⟨hdeveloper rfl, h⟩
  | _ => simp [h]

theorem answered_of_failure (halone : s.Alone) (h : id ∈ s.pending map)
    (hrequest : map.taskId id = .request id) (hnot : map ≠ .devGetClosestPeersFromNetwork) :
    Answered s (s.handleRequestRespOutboundFailure developer listens id error) (.pending map) id := by
  unfold handleRequestRespOutboundFailure
  rw [if_pos (containsQuery_of_mem h hrequest fun hdev => absurd hdev hnot)]
  rcases searched_terminateQuery s id error with ⟨-, hnone⟩ | ⟨map', hmap', hanswered⟩
  · refine absurd h (hnone map ?_)
    cases map with
    | closestPeers | putRecordKad => cases hrequest
    | devGetClosestPeersFromNetwork => exact absurd rfl hnot
    | _ => decide
  · have hsame := halone (.pending map) (.pending map') id h hanswered.waited
      (hrequest.trans (taskId_of_terminable id hmap').symm)
    rw [hsame]
    exact hanswered

theorem answered_of_response (halone : s.Alone) {response : QueryResponse} (h : id ∈ s.pending map)
    (hanswers : response.answers map = true)
    (hdeveloper : map = .devGetClosestPeersFromNetwork → developer = true) :
    Answered s (s.handleRequestRespEvent client developer listens id response) (.pending map) id := by
  have hrequest : map.taskId id = .request id := by
    cases map with
    | closestPeers | putRecordKad => cases response <;> cases hanswers
    | _ => rfl
  have hcontains : s.containsQuery developer id = true :=
    containsQuery_of_mem h hrequest hdeveloper
  cases response with
  | getStoreQuote quote storageProofs =>
    rw [handle_getStoreQuote halone hcontains]
    cases map with
    | getCost =>
      rw [if_pos h]
      exact answered_answer h
    | getStorageProofsFromPeer =>
      have hcost : id ∉ s.pending .getCost := fun hcost =>
        absurd (halone (.pending .getCost) (.pending .getStorageProofsFromPeer) id hcost h rfl)
          (by decide)
      rw [if_neg hcost]
      exact answered_answer h
    | _ => cases hanswers
  | devGetClosestPeersFromNetwork response =>
    unfold handleRequestRespEvent
    rw [if_pos hcontains]
    cases map with
    | devGetClosestPeersFromNetwork =>
      obtain rfl := hdeveloper rfl
      exact answered_answer h
    | _ => cases hanswers
  | _ =>
    unfold handleRequestRespEvent
    rw [if_pos hcontains]
    cases map <;> first | exact answered_answer h | cases hanswers

end PendingTasks

namespace NetworkDriver

open PendingTasks

theorem developer_of_starts {developer : Bool} {event : DriverEvent R} {id : Nat}
    (hstarts : Starts developer event kind id) :
    kind = .pending .devGetClosestPeersFromNetwork → developer = true := by
  rintro rfl
  cases hstarts with
  | query id task kind hkind => cases task <;> cases hkind
  | request id task kind hkind =>
    cases developer with
    | false => cases task <;> cases hkind
    | true => rfl

variable [DecidableEq R] [DecidableEq V] {value : R → V} {client : Client} {developer : Bool}
  {listens : TaskId → Bool} {d d' : NetworkDriver R} {event : DriverEvent R} {kind : TaskKind}
  {id : Nat}

theorem waits_of_starts (hstarts : Starts developer event kind id)
    (hstep : d.step value client developer listens event = some d') :
    d'.pendingTasks.Waits kind id := by
  cases hstarts with
  | query id task kind hkind =>
    obtain ⟨-, hd'⟩ := Option.ite_none_left_eq_some.mp hstep
    cases hd'
    exact ((inserted_insertTask id task).waits kind id).mpr (.inr ⟨hkind, rfl⟩)
  | request id task kind hkind =>
    obtain ⟨-, hd'⟩ := Option.ite_none_left_eq_some.mp hstep
    obtain rfl := Option.some.inj hd'
    exact ((inserted_insertQuery id task).waits kind id).mpr (.inr ⟨hkind, rfl⟩)

theorem answered_of_ends (h : d.Consistent) (horderly : d.Orderly event)
    (hdeveloper : kind = .pending .devGetClosestPeersFromNetwork → developer = true)
    (hwaits : d.pendingTasks.Waits kind id) (hends : Ends event kind id)
    (hstep : d.step value client developer listens event = some d') :
    Answered d.pendingTasks d'.pendingTasks kind id := by
  cases hends with
  | closestPeers id res | putRecordKad id res =>
    cases hstep
    unfold handleKadProgressEvent
    rw [if_pos (contains_of_waits hwaits rfl)]
    exact answered_answer hwaits
  | record id finish =>
    cases hstep
    unfold handleKadProgressEvent
    rw [if_pos (contains_of_waits hwaits rfl)]
    rcases updateGetRecord_moves value hwaits (.finished finish) with
      ⟨⟨peer, record, hfound⟩, -⟩ | hanswered
    · cases hfound
    · exact hanswered
  | response id response map hanswers =>
    cases hstep
    exact answered_of_response h.alone hwaits hanswers (by simpa using hdeveloper)
  | failure id error kind hrequest =>
    cases hstep
    cases kind with
    | record => cases hrequest
    | pending map =>
      refine answered_of_failure h.alone hwaits hrequest ?_
      rintro rfl
      exact horderly hwaits

/-- **Every task is answered once, and then forgotten.**  In a run in which results fit their
queries and no request of a developer's task fails, a task that is taken on and ends has been
sent one answer, and its number is in no map. -/
theorem answered_once {before between after : List (DriverEvent R)} {start finish : DriverEvent R}
    (hrun : GuardedRun (step value client developer listens) Orderly new
      (before ++ start :: between ++ finish :: after) d)
    (hstarts : Starts developer start kind id) (hends : Ends finish kind id) :
    d.pendingTasks.answersTo (kind.taskId id) = 1 ∧
      d.pendingTasks.Forgotten (kind.taskId id) := by
  have hstep_inv : ∀ (d : NetworkDriver R) (event : DriverEvent R) (d' : NetworkDriver R),
      d.Consistent ∧ d.Tracked kind id → d.Orderly event →
        step value client developer listens d event = some d' →
          d'.Consistent ∧ d'.Tracked kind id := fun _ _ _ h horderly hstep =>
    ⟨h.1.step horderly hstep, h.2.step h.1 horderly hstep⟩
  obtain ⟨d₃, hfront, hback⟩ := hrun.exists_middle
  obtain ⟨d₁, hbefore, hmiddle⟩ := hfront.exists_middle
  have h₁ : d₁.Consistent :=
    hbefore.invariant (fun _ _ _ h horderly hstep => h.step horderly hstep) consistent_new
  cases hmiddle with
  | @cons _ d₂ _ _ _ horderly hstep hbetween =>
    obtain ⟨h₃, htracked⟩ := hbetween.invariant hstep_inv
      ⟨h₁.step horderly hstep, .inl (waits_of_starts hstarts hstep)⟩
    cases hback with
    | @cons _ d₄ _ _ _ horderly' hstep' hafter =>
      -- If the task still waited, this step has answered it.
      have hone : d₄.pendingTasks.answersTo (kind.taskId id) = 1 := by
        rcases htracked with hwaits | hone
        · have hanswered := answered_of_ends h₃ horderly' (developer_of_starts hstarts) hwaits
            hends hstep'
          rw [hanswered.answers, h₃.unanswered kind id hwaits, if_pos rfl]
        · exact answersTo_step_of_one h₃ horderly' hstep' hone
      have hlater := hafter.invariant (I := fun d => d.Consistent ∧
          d.pendingTasks.answersTo (kind.taskId id) = 1) (fun _ _ _ h horderly hstep =>
        ⟨h.1.step horderly hstep, answersTo_step_of_one h.1 horderly hstep h.2⟩)
        ⟨h₃.step horderly' hstep', hone⟩
      exact ⟨hlater.2, hlater.1.forgotten hlater.2⟩

end NetworkDriver

namespace Sample

/-- A request for a version fails while a query for a record is under way. -/
def sideBySide : List (DriverEvent Nat) :=
  [] ++ .insertQuery 0 .getVersion :: [.insertTask 0 (.getRecord .one)] ++
    .outboundFailure 0 "timeout" :: [.queryProgressed 0 (.getRecord (.finished .notFound))]

end Sample

namespace NetworkDriver

/-- The failure is reported once. -/
theorem answered_once_sample :
    ∃ d, GuardedRun (step (fun record => record) sampleClient false fun _ => true) Orderly new
        Sample.sideBySide d ∧
      d.pendingTasks.answersTo (.request 0) = 1 ∧ d.pendingTasks.Forgotten (.request 0) := by
  obtain ⟨d, hd⟩ : ∃ d, runGuarded (step (fun record => record) sampleClient false fun _ => true)
      Orderly new Sample.sideBySide = some d := ⟨_, rfl⟩
  have hrun := guardedRun_of_runGuarded hd
  exact ⟨d, hrun, answered_once hrun (.request 0 .getVersion (.pending .getVersion) rfl)
    (.failure 0 "timeout" _ rfl)⟩

/-- With the feature, a developer's request fails and nobody is told: the task stays in its map. -/
theorem not_always_answered :
    ∃ d : NetworkDriver Nat,
      runSteps (step (fun record => record) sampleClient true fun _ => true) new
          [.insertQuery 0 .devGetClosestPeersFromNetwork, .outboundFailure 0 "timeout"] = some d ∧
        Starts true (.insertQuery 0 .devGetClosestPeersFromNetwork : DriverEvent Nat)
          (.pending .devGetClosestPeersFromNetwork) 0 ∧
        Ends (.outboundFailure 0 "timeout" : DriverEvent Nat)
          (.pending .devGetClosestPeersFromNetwork) 0 ∧
        d.pendingTasks.answersTo (.request 0) = 0 ∧
        ¬ d.pendingTasks.Forgotten (.request 0) := by
  refine ⟨_, rfl, .request 0 _ _ rfl, .failure 0 _ _ rfl, by decide, ?_⟩
  intro hforgotten
  refine hforgotten.1 (.pending .devGetClosestPeersFromNetwork) 0 rfl ?_
  show 0 ∈ PendingTasks.pending _ _
  decide

end NetworkDriver

end Autonomi.Client
