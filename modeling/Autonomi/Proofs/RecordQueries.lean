/-
What a record query is answered with.

A query is answered as soon as enough peers have sent the same value, and the answer is
made of all records that have come in until then.

`firstAnswer` is the answer to a single query as a function of its events.  Everything
is shown of it, and `foundRecords_answers` carries it over to the handler, whatever
other queries that has open.
-/
import Autonomi.Client.TaskHandler

namespace Autonomi.Client

open Lib List

namespace TaskHandler

variable {R V : Type} [DecidableEq R] [DecidableEq V] {value : R → V}
  {listens : QueryId → Bool} {id : QueryId} {quorum : Quorum} {handler : TaskHandler R}
  {found holders : List (PeerId × R)}

/-! ### The answer to one query -/

variable (value) in
/-- Enough of the holders have sent the same value. -/
def Agreed (quorum : Quorum) (holders : List (PeerId × R)) : Bool :=
  (getMaxContentHoldersCount value holders).any fun count => quorum.amount ≤ count

variable (value) in
/-- The answer once the records have been found in this order, if there is one. -/
def firstAnswer (quorum : Quorum) :
    List (PeerId × R) → List (PeerId × R) → Option (GetRecordAnswer R)
  | [], _ => none
  | e :: found, holders =>
    if Agreed value quorum (insertHolder holders e.1 e.2) then
      some (resultOf quorum (insertHolder holders e.1 e.2))
    else firstAnswer quorum found (insertHolder holders e.1 e.2)

theorem sendGetRecordResult_of_open (hlistens : listens id = true)
    (hquery : handler.getRecord.lookup id = some quorum) :
    handler.sendGetRecordResult listens id =
      ({ getRecord := handler.getRecord.erase id
         getRecordAccumulator := handler.getRecordAccumulator.erase id
         answers := handler.answers ++
          [(id, resultOf quorum ((handler.getRecordAccumulator.lookup id).getD []))] }, .ok ()) := by
  rw [sendGetRecordResult, consumeGetRecordTaskAndHolders, hquery]
  simp only [respond, hlistens, if_true]

variable (value) in
theorem updateGetRecord_of_open {record : R} {peer : Option PeerId} (hlistens : listens id = true)
    (hquery : handler.getRecord.lookup id = some quorum)
    (hholders : gather ((handler.getRecordAccumulator.lookup id).getD []) peer record = holders) :
    let next := (handler.updateGetRecord value listens id (.foundRecord peer record)).1
    (Agreed value quorum holders = true → next.getRecord.lookup id = none ∧
      next.answers = handler.answers ++ [(id, resultOf quorum holders)]) ∧
    (¬ Agreed value quorum holders = true → next.getRecord.lookup id = some quorum ∧
      next.answers = handler.answers ∧
      (next.getRecordAccumulator.lookup id).getD [] = holders) := by
  unfold Agreed
  constructor
  · intro hagreed
    have hgathered : (TaskHandler.mk handler.getRecord
        (handler.getRecordAccumulator.insert id holders) handler.answers).getRecord.lookup id
          = some quorum := hquery
    simp only [updateGetRecord, hholders, hquery, hagreed, if_true,
      sendGetRecordResult_of_open hlistens hgathered]
    simp
  · intro hagreed
    simp [updateGetRecord, hholders, hquery, hagreed]

variable (value listens) in
theorem updateGetRecord_of_closed (hquery : handler.getRecord.lookup id = none)
    (event : GetRecordEvent R) :
    let next := (handler.updateGetRecord value listens id event).1
    next.getRecord.lookup id = none ∧ next.answers = handler.answers := by
  have hconsume : handler.consumeGetRecordTaskAndHolders id = .error (.unknownQuery id) := by
    rw [consumeGetRecordTaskAndHolders, hquery]
  cases event with
  | foundRecord peer record => simp [updateGetRecord, hquery]
  | finished finish =>
    cases finish <;> simp [updateGetRecord, sendGetRecordResult, endQuery, hconsume, hquery]

theorem run_of_closed {events : List (GetRecordEvent R)}
    (hquery : handler.getRecord.lookup id = none) :
    (run value listens id handler events).answers = handler.answers := by
  induction events generalizing handler with
  | nil => rfl
  | cons event events ih =>
    obtain ⟨hclosed, hanswers⟩ := updateGetRecord_of_closed value listens hquery event
    rw [← hanswers]
    exact ih hclosed

/-- **What a handler answers to an open query** is what the query's own events make it. -/
theorem foundRecords_answers (hlistens : listens id = true)
    (hquery : handler.getRecord.lookup id = some quorum)
    (hholders : (handler.getRecordAccumulator.lookup id).getD [] = holders) :
    (foundRecords value listens id handler found).answers =
      handler.answers ++
        ((firstAnswer value quorum found holders).map fun answer => (id, answer)).toList := by
  induction found generalizing handler holders with
  | nil => simp [foundRecords, run, firstAnswer]
  | cons e found ih =>
    have hgather : gather ((handler.getRecordAccumulator.lookup id).getD []) (some e.1) e.2
        = insertHolder holders e.1 e.2 := by rw [hholders, gather]
    rw [firstAnswer]
    by_cases hagreed : Agreed value quorum (insertHolder holders e.1 e.2) = true
    · obtain ⟨hclosed, hanswers⟩ :=
        (updateGetRecord_of_open value hlistens hquery hgather).1 hagreed
      rw [if_pos hagreed]
      exact (run_of_closed hclosed).trans hanswers
    · obtain ⟨hopen, hanswers, hgathered⟩ :=
        (updateGetRecord_of_open value hlistens hquery hgather).2 hagreed
      rw [if_neg hagreed, ← hanswers]
      exact ih hopen hgathered

/-! ### A single query -/

section Single

def toNetworkError : GetRecordError Record → NetworkError
  | .splitRecord holders => .splitRecord holders
  | .getRecordQuorumFailed got expected holders => .getRecordQuorumFailed got expected holders
  | .getRecordTimeout peers => .getRecordTimeout peers

/-- What a caller makes of an answer that only wants the record. -/
def recordOnly (answer : GetRecordAnswer Record) : Except NetworkError (Option Record) :=
  match answer with
  | .ok (record, _) => .ok record
  | .error e => .error (toNetworkError e)

theorem recordOnly_resultOf (quorum : Quorum) (holders : Holders) :
    recordOnly (resultOf quorum holders) = Client.sendGetRecordResult quorum holders := by
  unfold resultOf Client.sendGetRecordResult
  split
  · rfl
  · split <;> simp_all [recordOnly, toNetworkError]

variable {handler : TaskHandler Record} {holders : Holders}

/-- **The handler refines the query followed on its own**: what it sends to the caller is what
`updateGetRecord` computes from the events. -/
theorem run_refines (hlistens : listens id = true)
    (hquery : handler.getRecord.lookup id = some quorum)
    (hholders : (handler.getRecordAccumulator.lookup id).getD [] = holders)
    (found : List (Option PeerId × Record)) (finish : KadEnd) :
    ∃ answer, (run (fun r : Record => r.value) listens id handler
        (found.map (fun e => .foundRecord e.1 e.2) ++ [.finished finish])).answers =
          handler.answers ++ [(id, answer)] ∧
      recordOnly answer = Client.updateGetRecord quorum finish found holders := by
  induction found generalizing handler holders with
  | nil =>
    have hend : ∀ answer : List PeerId → GetRecordAnswer Record,
        (handler.endQuery listens id answer).1.answers =
          handler.answers ++ [(id, answer (holders.map Prod.fst))] := by
      intro answer
      simp [endQuery, consumeGetRecordTaskAndHolders, hquery, hholders, respond, hlistens]
    cases finish with
    | finishedWithNoAdditionalRecord =>
      refine ⟨resultOf quorum holders, ?_, recordOnly_resultOf quorum holders⟩
      simp [run, updateGetRecord, sendGetRecordResult_of_open hlistens hquery, hholders]
    | notFound | quorumFailed => exact ⟨_, hend fun peers => .ok (none, peers), rfl⟩
    | timeout => exact ⟨_, hend fun peers => .error (.getRecordTimeout peers), rfl⟩
  | cons e found ih =>
    have hgather : gather ((handler.getRecordAccumulator.lookup id).getD []) e.1 e.2
        = gather holders e.1 e.2 := by rw [hholders]
    have hmatch : Client.updateGetRecord quorum finish (e :: found) holders =
        if Agreed (fun r : Record => r.value) quorum (gather holders e.1 e.2) then
          Client.sendGetRecordResult quorum (gather holders e.1 e.2)
        else Client.updateGetRecord quorum finish found (gather holders e.1 e.2) := by
      obtain ⟨peer, record⟩ := e
      cases peer <;> rfl
    rw [hmatch]
    by_cases hagreed : Agreed (fun r : Record => r.value) quorum (gather holders e.1 e.2) = true
    · obtain ⟨hclosed, hanswers⟩ :=
        (updateGetRecord_of_open (fun r : Record => r.value) hlistens hquery hgather).1 hagreed
      rw [if_pos hagreed]
      exact ⟨_, (run_of_closed hclosed).trans hanswers, recordOnly_resultOf quorum _⟩
    · obtain ⟨hopen, hanswers, hgathered⟩ :=
        (updateGetRecord_of_open (fun r : Record => r.value) hlistens hquery hgather).2 hagreed
      rw [if_neg hagreed, ← hanswers]
      exact ih hopen hgathered

theorem run_refines_sample :
    ∃ answer, (run (fun r : Record => r.value) (fun _ => true) 0
        (insertTask ⟨∅, ∅, []⟩ 0 .one) [.finished .timeout]).answers = [(0, answer)] ∧
      recordOnly answer = .error (.getRecordTimeout []) :=
  run_refines rfl (AList.lookup_insert _) rfl [] .timeout

end Single

/-! ### Which records an answer is made of -/

omit [DecidableEq R] in
theorem insertHolder_of_notMem {peer : PeerId} (h : peer ∉ holders.map Prod.fst) :
    insertHolder holders peer record = holders ++ [(peer, record)] := by
  have hkept : (holders.filter fun holder => holder.1 ≠ peer) = holders := by
    refine filter_eq_self.mpr fun holder hholder => decide_eq_true ?_
    rintro rfl
    exact h (mem_map_of_mem hholder)
  rw [insertHolder, hkept]

omit [DecidableEq R] in
theorem agreed_iff : Agreed value quorum holders = true ↔
    ∃ e ∈ holders, quorum.amount ≤ holders.countP fun other => value other.2 = value e.2 := by
  have hany : ∀ (l : List Nat) (n : Nat), (l.max?.any fun count => n ≤ count) = true ↔
      ∃ count ∈ l, n ≤ count := by
    intro l n
    cases hmax : l.max? with
    | none =>
      rw [List.max?_eq_none_iff.mp hmax]
      simp
    | some m =>
      obtain ⟨hmem, hle⟩ := List.max?_eq_some_iff.mp hmax
      simp only [Option.any_some, decide_eq_true_eq]
      constructor
      · intro hn
        exact ⟨m, hmem, hn⟩
      · rintro ⟨count, hcount, hn⟩
        exact hn.trans (hle count hcount)
  rw [Agreed, getMaxContentHoldersCount, hany]
  simp only [mem_map, exists_exists_and_eq_and]

omit [DecidableEq R] in
theorem agreed_of_count {v : V}
    (h : quorum.amount ≤ holders.countP fun e => value e.2 = v) :
    Agreed value quorum holders = true := by
  obtain ⟨e, he, hv⟩ := countP_pos_iff.mp (quorum.amount_pos.trans_le h)
  refine agreed_iff.mpr ⟨e, he, ?_⟩
  rwa [of_decide_eq_true hv]

/-- **The answer is made of the records found first**, up to where enough peers agree. -/
theorem exists_firstAnswer (hnodup : ((holders ++ found).map Prod.fst).Nodup)
    (hnot : ¬ Agreed value quorum holders = true)
    (hall : Agreed value quorum (holders ++ found) = true) :
    ∃ front rest, found = front ++ rest ∧ Agreed value quorum (holders ++ front) = true ∧
      firstAnswer value quorum found holders = some (resultOf quorum (holders ++ front)) := by
  induction found generalizing holders with
  | nil =>
    rw [append_nil] at hall
    exact absurd hall hnot
  | cons e found ih =>
    have hassoc : holders ++ e :: found = (holders ++ [e]) ++ found := by simp
    have hnew : e.1 ∉ holders.map Prod.fst := by
      rw [map_append, nodup_append] at hnodup
      exact fun hmem => hnodup.2.2 e.1 hmem e.1 mem_cons_self rfl
    rw [firstAnswer, insertHolder_of_notMem hnew]
    by_cases hagreed : Agreed value quorum (holders ++ [e]) = true
    · rw [if_pos hagreed]
      exact ⟨[e], found, rfl, hagreed, rfl⟩
    · rw [if_neg hagreed]
      rw [hassoc] at hnodup hall
      obtain ⟨front, rest, rfl, hfront, hanswer⟩ := ih hnodup hagreed hall
      refine ⟨e :: front, rest, rfl, ?_, ?_⟩
      · rwa [append_cons]
      · rw [hanswer, append_cons holders e front]

theorem resultOf_ok {peers : List PeerId}
    (h : resultOf quorum holders = .ok (some record, peers)) : ∀ e ∈ holders, e.2 = record := by
  unfold resultOf at h
  split at h
  · cases h
  · split at h
    · cases h
    · rename_i one hone
      intro e he
      have hmem : e.2 ∈ (holders.map Prod.snd).dedup :=
        mem_dedup.mpr (mem_map_of_mem he)
      rw [hone] at hmem
      cases h
      exact mem_singleton.mp hmem
    · cases h

theorem resultOf_of_same (hne : holders ≠ [])
    (hlength : quorum.amount ≤ holders.length) (hsame : ∀ e ∈ holders, e.2 = record) :
    resultOf quorum holders = .ok (some record, holders.map Prod.fst) := by
  have hdedup : (holders.map Prod.snd).dedup = [record] := by
    have hreplicate : holders.map Prod.snd = List.replicate holders.length record := by
      refine eq_replicate_iff.mpr ⟨length_map _, fun r hr => ?_⟩
      obtain ⟨e, he, rfl⟩ := mem_map.mp hr
      exact hsame e he
    rw [hreplicate, replicate_dedup (fun h => hne (length_eq_zero_iff.mp h))]
  rw [resultOf, if_neg (Nat.not_lt.mpr hlength), hdedup]

/-! ### Agreement is not enough -/

omit [DecidableEq R] in
theorem not_agreed_nil : ¬ Agreed value quorum ([] : List (PeerId × R)) = true := by
  intro h
  obtain ⟨e, he, -⟩ := agreed_iff.mp h
  cases he

theorem firstAnswer_of_one (hone : quorum.amount = 1) (e : PeerId × R) (rest : List (PeerId × R)) :
    firstAnswer value quorum (e :: rest) [] = some (.ok (some e.2, [e.1])) := by
  have hagreed : Agreed value quorum [e] = true := by
    refine agreed_iff.mpr ⟨e, mem_singleton.mpr rfl, ?_⟩
    rw [hone]
    simp
  have hresult : resultOf quorum [e] = .ok (some e.2, [e.1]) :=
    resultOf_of_same (cons_ne_nil e []) (Nat.le_of_eq hone)
      fun e' he' => congrArg Prod.snd (mem_singleton.mp he')
  exact (if_pos hagreed).trans (congrArg some hresult)

theorem firstAnswer_of_two (hquorum : quorum.amount ≠ 1) {e e' : PeerId × R}
    {rest : List (PeerId × R)} (hnodup : ((e :: e' :: rest).map Prod.fst).Nodup)
    (hall : Agreed value quorum (e :: e' :: rest) = true) (hne : e.2 ≠ e'.2) (record : R)
    (peers : List PeerId) :
    firstAnswer value quorum (e :: e' :: rest) [] ≠ some (.ok (some record, peers)) := by
  have hall' : Agreed value quorum ([] ++ e :: e' :: rest) = true := hall
  obtain ⟨front, back, hsplit, hagreed, hanswer⟩ := exists_firstAnswer hnodup not_agreed_nil hall'
  rw [hanswer]
  intro h
  have hsame := resultOf_ok (Option.some.inj h)
  match front, hsplit with
  | [], _ => exact not_agreed_nil hagreed
  | [only], _ =>
    obtain ⟨x, -, hcount⟩ := agreed_iff.mp hagreed
    have hone := hcount.trans countP_le_length
    have hpos := quorum.amount_pos
    exact hquorum (Nat.le_antisymm hone hpos)
  | first :: second :: front, hfront =>
    obtain ⟨rfl, htail⟩ := List.cons.inj hfront
    cases htail
    have hfirst := hsame e mem_cons_self
    have hsecond := hsame e' (mem_cons_of_mem e mem_cons_self)
    exact hne (hfirst.trans hsecond.symm)

variable (value) in
/-- In whatever order the records come in, the caller is sent one with the value. -/
def AnsweredWith (listens : QueryId → Bool) (id : QueryId) (handler : TaskHandler R)
    (found : List (PeerId × R)) (v : V) : Prop :=
  ∀ order : List (PeerId × R), order.Perm found → ∃ record peers, value record = v ∧
    (foundRecords value listens id handler order).answers =
      handler.answers ++ [(id, .ok (some record, peers))]

/-- **When the value that enough peers agree on is the answer in every order**: if all records
found are the same in every field, or one peer is enough and all values are the same. -/
theorem answered_with_agreed_iff (hlistens : listens id = true)
    (hquery : handler.getRecord.lookup id = some quorum)
    (hfresh : id ∉ handler.getRecordAccumulator) (hpeers : (found.map Prod.fst).Nodup) {v : V}
    (hagreed : quorum.amount ≤ found.countP fun e => value e.2 = v) :
    AnsweredWith value listens id handler found v ↔
      (∀ e ∈ found, ∀ e' ∈ found, e.2 = e'.2) ∨
        (quorum.amount = 1 ∧ ∀ e ∈ found, value e.2 = v) := by
  have hholders : (handler.getRecordAccumulator.lookup id).getD [] = [] := by
    rw [AList.lookup_eq_none.mpr hfresh]
    rfl
  have hanswers : ∀ (order : List (PeerId × R)) record peers,
      (foundRecords value listens id handler order).answers =
          handler.answers ++ [(id, .ok (some record, peers))] ↔
        firstAnswer value quorum order [] = some (.ok (some record, peers)) := by
    intro order record peers
    rw [foundRecords_answers hlistens hquery hholders]
    cases firstAnswer value quorum order [] with
    | none => simp
    | some answer => simp
  simp only [AnsweredWith, hanswers]
  obtain ⟨good, hgood, hv⟩ := countP_pos_iff.mp (quorum.amount_pos.trans_le hagreed)
  constructor
  · intro h
    by_cases hone : quorum.amount = 1
    · -- any record may be the first
      refine .inr ⟨hone, fun e he => ?_⟩
      obtain ⟨record, peers, hrecord, hanswer⟩ := h _ (perm_cons_erase he).symm
      rw [firstAnswer_of_one hone] at hanswer
      cases hanswer
      exact hrecord
    · -- any two records may be the first two
      refine .inl fun e he e' he' => ?_
      by_contra hne
      have he'' : e' ∈ found.erase e :=
        (mem_erase_of_ne fun heq => hne (congrArg Prod.snd heq).symm).mpr he'
      have hperm : (e :: e' :: (found.erase e).erase e').Perm found :=
        ((perm_cons_erase he'').symm.cons e).trans (perm_cons_erase he).symm
      obtain ⟨record, peers, -, hanswer⟩ := h _ hperm
      refine firstAnswer_of_two hone ?_ ?_ hne record peers hanswer
      · exact (hperm.map Prod.fst).nodup_iff.mpr hpeers
      · exact agreed_of_count (by rwa [hperm.countP_eq])
  · rintro (hsame | ⟨hone, hvalue⟩) order hperm
    · have hall : Agreed value quorum ([] ++ order) = true :=
        agreed_of_count (by rwa [nil_append, hperm.countP_eq])
      have hnodup : (([] ++ order).map Prod.fst).Nodup := by
        exact (hperm.map Prod.fst).nodup_iff.mpr hpeers
      obtain ⟨front, rest, hsplit, hfront, hanswer⟩ := exists_firstAnswer hnodup not_agreed_nil hall
      rw [nil_append] at hfront hanswer
      have hrecord : ∀ e ∈ front, e.2 = good.2 := by
        intro e he
        refine hsame e (hperm.mem_iff.mp ?_) good hgood
        rw [hsplit]
        exact mem_append_left rest he
      obtain ⟨x, hx, hcount⟩ := agreed_iff.mp hfront
      refine ⟨good.2, front.map Prod.fst, of_decide_eq_true hv, ?_⟩
      rw [hanswer, resultOf_of_same (ne_nil_of_mem hx) (hcount.trans countP_le_length) hrecord]
    · cases order with
      | nil =>
        rw [nil_perm.mp hperm] at hgood
        cases hgood
      | cons e rest =>
        exact ⟨e.2, [e.1], hvalue e (hperm.mem_iff.mp mem_cons_self),
          firstAnswer_of_one hone e rest⟩

/-- A record as two of three peers send it, up to fields other than the value. -/
def sampleRecord (bytes : Bytes) (publisher : Option PeerId) : PeerRecord :=
  { key := [5], value := RecordValue.ofChunk ⟨bytes⟩, publisher, expires := none }

def sampleQuery : TaskHandler PeerRecord :=
  insertTask ⟨∅, ∅, []⟩ 0 (.n ⟨2, Nat.two_pos⟩)

theorem answered_with_agreed_sample :
    AnsweredWith (fun r : PeerRecord => r.value) (fun _ => true) 0 sampleQuery
      [([1], sampleRecord [7] none), ([2], sampleRecord [7] none), ([3], sampleRecord [7] none)]
      (RecordValue.ofChunk ⟨[7]⟩) := by
  refine (answered_with_agreed_iff rfl (AList.lookup_insert _) (AList.notMem_empty 0)
    (by decide) (by decide)).mpr (.inl ?_)
  decide

/-- Two of three peers agree, and the caller is told of a split: because the third came first, and
because one of the two filled in a publisher. -/
theorem agreed_value_not_answered :
    ¬ AnsweredWith (fun r : PeerRecord => r.value) (fun _ => true) 0 sampleQuery
        [([1], sampleRecord [8] none), ([2], sampleRecord [7] none), ([3], sampleRecord [7] none)]
        (RecordValue.ofChunk ⟨[7]⟩) ∧
      ¬ AnsweredWith (fun r : PeerRecord => r.value) (fun _ => true) 0 sampleQuery
        [([1], sampleRecord [7] none), ([2], sampleRecord [7] (some [2]))]
        (RecordValue.ofChunk ⟨[7]⟩) := by
  constructor
  · intro h
    obtain ⟨record, peers, -, hanswers⟩ := h _ (List.Perm.refl _)
    cases hanswers
  · intro h
    obtain ⟨record, peers, -, hanswers⟩ := h _ (List.Perm.refl _)
    cases hanswers

end TaskHandler

end Autonomi.Client
