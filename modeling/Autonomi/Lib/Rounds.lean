/-
Working through a queue in rounds.

A round draws elements from the front of a queue.  It skips what is done and tries the
rest, until it has tried as many as its quota or the queue is empty; what it tried is
done after it.

A round can spend its quota on repetitions and then comes less far than the number of
its elements suggests.  `Spread` says that no round has that chance.
-/
import Autonomi.Lib.Unique
import Mathlib.Algebra.GroupWithZero.Nat

namespace Lib

open List

variable {α : Type} [DecidableEq α] {done seen : Finset α} {quota : Nat} {a : α}

/-! ### One round -/

/-- What a round tries and leaves, whatever gets done while it lasts. -/
structure Round (done : Finset α) (quota : Nat) (queue tried rest : List α) : Prop where
  drawn : ∃ front, queue = front ++ rest ∧ tried.Sublist (front.filter (· ∉ done)) ∧
    ∀ a ∈ front, a ∈ done ∨ a ∈ tried
  length_le : tried.length ≤ quota
  ends : tried.length = quota ∨ rest = []

/-- An element that a round can come to, with all before it done or tried within the quota. -/
def Comes (done : Finset α) (quota : Nat) (queue : List α) (a : α) : Prop :=
  a ∉ done ∧ ∃ (front after : List α) (earlier : Finset α), queue = front ++ a :: after ∧
    earlier.card < quota ∧ ∀ b ∈ front, b ∈ done ∨ b ∈ earlier

variable {window queue tried rest : List α} {finished : Finset α}

theorem Round.stop (h : quota = 0 ∨ queue = []) : Round done quota queue [] queue where
  drawn := ⟨[], rfl, nil_sublist _, forall_mem_nil _⟩
  length_le := Nat.zero_le _
  ends := h.imp_left Eq.symm

/-- A round that draws a window of elements, gets some of them done and goes on. -/
theorem Round.drawWindow (hroom : window.length ≤ quota)
    (hfinished : ∀ b ∈ finished, b ∈ window.filter (· ∉ done))
    (h : Round (done ∪ finished) (quota - (window.filter (· ∉ done)).length) queue tried rest) :
    Round done quota (window ++ queue) (window.filter (· ∉ done) ++ tried) rest := by
  obtain ⟨⟨front, rfl, hsub, hfront⟩, hlength, hends⟩ := h
  have hwindow := length_filter_le (· ∉ done) window
  refine ⟨⟨window ++ front, (append_assoc _ _ _).symm, ?_, ?_⟩, ?_, ?_⟩
  · rw [filter_append]
    refine (hsub.trans ?_).append_left _
    refine monotone_filter_right front fun b hb => ?_
    simp only [Finset.mem_union, not_or, decide_eq_true_eq] at hb ⊢
    exact hb.1
  · intro b hb
    rcases mem_append.mp hb with hb | hb
    · by_cases hdone : b ∈ done
      · exact .inl hdone
      · exact .inr (mem_append_left _ (mem_filter.mpr ⟨hb, decide_eq_true hdone⟩))
    · rcases hfront b hb with hb | hb
      · rcases Finset.mem_union.mp hb with hb | hb
        · exact .inl hb
        · exact .inr (mem_append_left _ (hfinished b hb))
      · exact .inr (mem_append_right _ hb)
  · rw [length_append]
    omega
  · rw [length_append]
    exact hends.imp_left fun hfull => by omega

theorem Comes.inWindow (hroom : window.length ≤ quota) (ha : a ∈ window.filter (· ∉ done)) :
    Comes done quota (window ++ queue) a := by
  obtain ⟨ha, hdone⟩ := mem_filter.mp ha
  obtain ⟨front, after, rfl⟩ := append_of_mem ha
  refine ⟨of_decide_eq_true hdone, front, after ++ queue, front.toFinset, by simp, ?_, ?_⟩
  · have := toFinset_card_le front
    simp only [length_append, length_cons] at hroom
    omega
  · exact fun b hb => .inr (mem_toFinset.mpr hb)

theorem Comes.afterWindow (hfinished : ∀ b ∈ finished, b ∈ window.filter (· ∉ done))
    (h : Comes (done ∪ finished) (quota - (window.filter (· ∉ done)).length) queue a) :
    Comes done quota (window ++ queue) a := by
  obtain ⟨ha, front, after, earlier, rfl, hcard, hfront⟩ := h
  have hwindow := toFinset_card_le (window.filter (· ∉ done))
  refine ⟨fun hdone => ha (Finset.mem_union_left _ hdone), window ++ front, after,
    (window.filter (· ∉ done)).toFinset ∪ earlier, (append_assoc _ _ _).symm, ?_, ?_⟩
  · have := Finset.card_union_le (window.filter (· ∉ done)).toFinset earlier
    omega
  · intro b hb
    rw [Finset.mem_union, mem_toFinset]
    rcases mem_append.mp hb with hb | hb
    · by_cases hdone : b ∈ done
      · exact .inl hdone
      · exact .inr (.inl (mem_filter.mpr ⟨hb, decide_eq_true hdone⟩))
    · rcases hfront b hb with hb | hb
      · exact (Finset.mem_union.mp hb).imp_right fun hb => .inl (hfinished b hb)
      · exact .inr (.inr hb)

/-- Of all that is new, a round only comes to what the quotas so far reach. -/
theorem Comes.mem_take {all before : List α} {earlier : Finset α} (h : Comes done quota queue a)
    (hall : all = before ++ queue) (hseen : seen ⊆ done)
    (hbefore : ∀ b ∈ before, b ∈ seen ∨ b ∈ earlier) (hdone : ∀ b ∈ done, b ∈ seen ∨ b ∈ earlier) :
    a ∈ (unique seen all).take (earlier.card + quota) := by
  obtain ⟨ha, front, after, tried, rfl, hcard, hfront⟩ := h
  rw [hall, ← append_assoc]
  have hpassed : ∀ b ∈ before ++ front, b ∈ seen ∨ b ∈ earlier ∪ tried := by
    intro b hb
    rw [Finset.mem_union, ← or_assoc]
    rcases mem_append.mp hb with hb | hb
    · exact .inl (hbefore b hb)
    · exact (hfront b hb).imp_left (hdone b)
  have hunion := Finset.card_union_le earlier tried
  exact mem_take_unique (fun hmem => ha (hseen hmem)) hpassed (by omega)

/-! ### What is left -/

/-- What is to do after a round that tries everything it comes to. -/
def leftAfter (quota : Nat) (todo : List α) : List α :=
  (todo.drop quota).filter (· ∉ todo.take quota)

def remaining : List Nat → List α → List α
  | [], todo => todo
  | quota :: quotas, todo => remaining quotas (leftAfter quota todo)

/-- No round comes to an element twice. -/
def Spread : List Nat → List α → Prop
  | [], _ => True
  | quota :: quotas, todo => (todo.take quota).Nodup ∧ Spread quotas (leftAfter quota todo)

instance decidableSpread : (quotas : List Nat) → (todo : List α) → Decidable (Spread quotas todo)
  | [], _ => .isTrue trivial
  | _ :: quotas, _ => @instDecidableAnd _ _ _ (decidableSpread quotas _)

variable {todo : List α} {quotas : List Nat}

theorem toFinset_leftAfter (quota : Nat) (todo : List α) :
    (leftAfter quota todo).toFinset = todo.toFinset \ (todo.take quota).toFinset := by
  ext b
  simp only [leftAfter, mem_toFinset, mem_filter, decide_eq_true_eq, Finset.mem_sdiff]
  refine and_congr_left fun hb => ?_
  conv_rhs => rw [← take_append_drop quota todo, mem_append]
  exact (or_iff_right hb).symm

theorem card_leftAfter (quota : Nat) (todo : List α) :
    (leftAfter quota todo).toFinset.card + (todo.take quota).toFinset.card
      = todo.toFinset.card := by
  rw [toFinset_leftAfter]
  refine Finset.card_sdiff_add_card_eq_card fun b hb => ?_
  exact mem_toFinset.mpr (mem_of_mem_take (mem_toFinset.mp hb))

theorem spread_of_nodup (h : todo.Nodup) (quotas : List Nat) : Spread quotas todo := by
  induction quotas generalizing todo with
  | nil => trivial
  | cons quota quotas ih =>
    exact ⟨h.sublist (take_sublist _ _), ih ((h.sublist (drop_sublist _ _)).filter _)⟩

/-- Rounds with enough quotas that are spread leave nothing. -/
theorem remaining_eq_nil (h : Spread quotas todo) (hcard : todo.toFinset.card ≤ quotas.sum) :
    remaining quotas todo = [] := by
  induction quotas generalizing todo with
  | nil =>
    rw [sum_nil, Nat.le_zero, Finset.card_eq_zero] at hcard
    exact toFinset_eq_empty_iff todo |>.mp hcard
  | cons quota quotas ih =>
    refine ih h.2 ?_
    have hleft := card_leftAfter quota todo
    rw [toFinset_card_of_nodup h.1, length_take] at hleft
    have hle := toFinset_card_le todo
    rw [sum_cons] at hcard
    omega

/-- Others leave something, if there is as much to do as the quotas allow. -/
theorem remaining_ne_nil (h : ¬ Spread quotas todo) (hcard : quotas.sum ≤ todo.toFinset.card) :
    remaining quotas todo ≠ [] := by
  have hbound : ∀ (quotas : List Nat) (todo : List α),
      todo.toFinset.card ≤ (remaining quotas todo).toFinset.card + quotas.sum := by
    intro quotas
    induction quotas with
    | nil => exact fun todo => le_rfl
    | cons quota quotas ih =>
      intro todo
      have hleft := card_leftAfter quota todo
      have htaken := (toFinset_card_le (todo.take quota)).trans (length_take_le _ _)
      have hrest := ih (leftAfter quota todo)
      rw [remaining, sum_cons]
      omega
  induction quotas generalizing todo with
  | nil => exact absurd trivial h
  | cons quota quotas ih =>
    have hleft := card_leftAfter quota todo
    have htaken := length_take_le quota todo
    have hfewer := toFinset_card_le (todo.take quota)
    rw [sum_cons] at hcard
    by_cases hnodup : (todo.take quota).Nodup
    · exact ih (fun hspread => h ⟨hnodup, hspread⟩) (by omega)
    · -- The repetition costs this round one element of its quota.
      have hlost : (todo.take quota).toFinset.card < (todo.take quota).length :=
        lt_of_le_of_ne hfewer fun heq => hnodup (Multiset.toFinset_card_eq_card_iff_nodup.mp heq)
      intro hnil
      rw [remaining] at hnil
      have hrest := hbound quotas (leftAfter quota todo)
      rw [hnil, toFinset_nil, Finset.card_empty] at hrest
      omega

/-- Without repetitions a round comes to the new elements in their order. -/
theorem unique_eq_take_append (h : (todo.take quota).Nodup) :
    unique ∅ todo = todo.take quota ++ unique ∅ (leftAfter quota todo) := by
  have hfilter : leftAfter quota todo
      = (todo.drop quota).filter (· ∉ (todo.take quota).toFinset) := by
    simp only [leftAfter, mem_toFinset]
  conv_lhs => rw [← take_append_drop quota todo]
  rw [unique_append, unique_eq_self h fun b _ => Finset.notMem_empty b, hfilter, unique_filter]

/-- A round without repetitions tries what comes first, and leaves the others. -/
theorem Round.left (h : Round done quota queue tried rest)
    (hnodup : ((queue.filter (· ∉ done)).take quota).Nodup) :
    rest.filter (· ∉ done ∪ tried.toFinset) = leftAfter quota (queue.filter (· ∉ done)) ∧
      ∀ b ∈ (queue.filter (· ∉ done)).take quota, b ∈ tried := by
  obtain ⟨⟨front, rfl, hsub, hfront⟩, hlength, hends⟩ := h
  have hnew : ∀ b ∈ front.filter (· ∉ done), b ∈ tried := by
    intro b hb
    obtain ⟨hb, hdone⟩ := mem_filter.mp hb
    exact (hfront b hb).resolve_left (of_decide_eq_true hdone)
  have hle := hsub.length_le
  rw [filter_append] at hnodup ⊢
  generalize front.filter (· ∉ done) = new at hsub hnew hle hnodup ⊢
  by_cases hshort : new.length < quota
  · obtain rfl : rest = [] := hends.resolve_left (by omega)
    simp only [filter_nil, append_nil]
    refine ⟨?_, fun b hb => hnew b (mem_of_mem_take hb)⟩
    rw [leftAfter, drop_of_length_le (le_of_lt hshort), filter_nil]
  · have htake : (new ++ rest.filter (· ∉ done)).take quota = new.take quota :=
      take_append_of_le_length (Nat.not_lt.mp hshort)
    rw [htake] at hnodup
    have hsubset : (new.take quota).toFinset ⊆ tried.toFinset := fun b hb =>
      mem_toFinset.mpr (hnew b (mem_of_mem_take (mem_toFinset.mp hb)))
    -- The quota is used up by different elements, so nothing else was tried.
    have hsame : (new.take quota).toFinset = tried.toFinset := by
      refine Finset.eq_of_subset_of_card_le hsubset ?_
      rw [toFinset_card_of_nodup hnodup, length_take]
      have := toFinset_card_le tried
      omega
    refine ⟨?_, fun b hb => hnew b (mem_of_mem_take (htake ▸ hb))⟩
    have hgone : (new.drop quota).filter (· ∉ new.take quota) = [] := by
      refine filter_eq_nil_iff.mpr fun b hb => ?_
      have hmem := hnew b (mem_of_mem_drop hb)
      rw [← mem_toFinset, ← hsame, mem_toFinset] at hmem
      simpa using hmem
    rw [leftAfter, htake, drop_append_of_le_length (Nat.not_lt.mp hshort), filter_append,
      hgone, nil_append, filter_filter, ← hsame]
    refine filter_congr fun b _ => ?_
    simp only [Finset.mem_union, mem_toFinset, not_or, Bool.decide_and]
    exact Bool.and_comm _ _

end Lib
