/-
The latest version, by the number of its copies.

A reader keeps the versions with the highest counter, groups them by content, and takes
the group with the most copies, represented by the copy that came first.  `leaders`
computes the representatives of all groups that tie for the most copies, the way such
code does it: a list of groups with their counts, each item looked up in it and added to
its group or appended.

`Wins` and `Leads` say the same without the list of groups, in terms of the items alone:
who came first of its content, and how many copies there are.
-/
import Mathlib.Data.Finset.Max

namespace Lib.Plurality

open List

variable {α κ : Type} [DecidableEq κ]

/-! ### Counting copies -/

/-- One more copy: of the first group with the same content, or of a new group. -/
def bump (same : α → α → Bool) : List (α × Nat) → α → List (α × Nat)
  | [], item => [(item, 1)]
  | (existing, count) :: groups, item =>
    if same existing item then (existing, count + 1) :: groups
    else (existing, count) :: bump same groups item

/-- The groups of equal content with their number of copies, each by its first item. -/
def tally (same : α → α → Bool) (items : List α) : List (α × Nat) :=
  items.foldl (bump same) []

/-- The first items of the groups with the most copies. -/
def leaders (same : α → α → Bool) (items : List α) : List α :=
  let groups := tally same items
  let maxCopies := (groups.map Prod.snd).max?.getD 0
  (groups.filter fun group => group.2 = maxCopies).map Prod.fst

variable (content : α → κ)

def copies (items : List α) (x : α) : Nat :=
  items.countP fun y => content y = content x

def firstLike (items : List α) (x : α) : Option α :=
  items.find? fun y => content y = content x

/-- `x` came first of its content, and no content has more copies. -/
def Wins (items : List α) (x : α) : Prop :=
  firstLike content items x = some x ∧ ∀ y ∈ items, copies content items y ≤ copies content items x

variable {content : α → κ} {same : α → α → Bool} {items : List α}

variable {x : α} {y : α}

theorem copies_congr (h : content x = content y) :
    copies content items x = copies content items y := by
  unfold copies
  rw [h]

theorem firstLike_congr (h : content x = content y) :
    firstLike content items x = firstLike content items y := by
  unfold firstLike
  rw [h]

theorem copies_append (items : List α) (a x : α) :
    copies content (items ++ [a]) x
      = copies content items x + if content a = content x then 1 else 0 := by
  by_cases h : content a = content x
  · simp [copies, countP_append, h]
  · simp [copies, countP_append, h]

theorem mem_of_firstLike (h : firstLike content items x = some y) :
    y ∈ items ∧ content y = content x :=
  ⟨mem_of_find?_eq_some h, by simpa using List.find?_some h⟩

variable (content) in
/-- Every item is like some first item. -/
theorem exists_firstLike (hy : y ∈ items) :
    ∃ z, firstLike content items z = some z ∧ z ∈ items ∧ content z = content y := by
  have hsome : (firstLike content items y).isSome := by
    rw [firstLike, List.find?_isSome]
    exact ⟨y, hy, by simp⟩
  obtain ⟨z, hz⟩ := Option.isSome_iff_exists.mp hsome
  obtain ⟨hmem, hcontent⟩ := mem_of_firstLike hz
  exact ⟨z, (firstLike_congr hcontent).trans hz, hmem, hcontent⟩

theorem firstLike_append (content : α → κ) (items : List α) (a x : α) :
    firstLike content (items ++ [a]) x
      = (firstLike content items x).or (if content a = content x then some a else none) := by
  by_cases h : content a = content x
  · simp [firstLike, List.find?_append, h]
  · simp [firstLike, List.find?_append, h]

/-! ### The list of groups -/

/-- The groups of `items`: one for each content, each with the number of its copies. -/
structure Tallied (content : α → κ) (items : List α) (groups : List (α × Nat)) : Prop where
  distinct : groups.Pairwise fun p q => content p.1 ≠ content q.1
  mem_iff : ∀ x n, (x, n) ∈ groups ↔
    firstLike content items x = some x ∧ n = copies content items x

section Groups

variable (hsame : ∀ a b, same a b = true ↔ content a = content b)
variable {groups : List (α × Nat)}

include hsame

/-- The count of the group with the content of `a` goes up, or there is a new group. -/
theorem bump_cases (groups : List (α × Nat)) (a : α) :
    (∃ before first count after, groups = before ++ (first, count) :: after ∧
      content first = content a ∧ bump same groups a = before ++ (first, count + 1) :: after) ∨
    (∀ p ∈ groups, content p.1 ≠ content a) ∧ bump same groups a = groups ++ [(a, 1)] := by
  induction groups with
  | nil => exact .inr ⟨nofun, rfl⟩
  | cons group groups ih =>
    by_cases h : content group.1 = content a
    · exact .inl ⟨[], group.1, group.2, groups, rfl, h, if_pos ((hsame _ _).mpr h)⟩
    · have hbump : bump same (group :: groups) a = group :: bump same groups a :=
        if_neg fun heq => h ((hsame _ _).mp heq)
      rw [hbump]
      rcases ih with ⟨before, first, count, after, rfl, hfirst, heq⟩ | ⟨hnone, heq⟩
      · exact .inl ⟨group :: before, first, count, after, rfl, hfirst, by rw [heq]; rfl⟩
      · exact .inr ⟨forall_mem_cons.mpr ⟨h, hnone⟩, by rw [heq]; rfl⟩

theorem Tallied.bump {a : α} (h : Tallied content items groups) :
    Tallied content (items ++ [a]) (bump same groups a) := by
  rcases bump_cases hsame groups a with
    ⟨before, first, count, after, rfl, hfirst, hbump⟩ | ⟨hnone, hbump⟩
  · obtain ⟨hlike, hcount⟩ := (h.mem_iff first count).mp (by simp)
    have hdistinct := pairwise_append.mp h.distinct
    rw [hbump]
    refine ⟨by simpa [pairwise_append] using h.distinct, fun x n => ?_⟩
    have hmem := h.mem_iff x n
    rw [firstLike_append, copies_append]
    by_cases hax : content a = content x
    · -- the group that was counted is the only one with this content
      have hx : content first = content x := hfirst.trans hax
      have hbefore : (x, n) ∉ before := fun hmem =>
        hdistinct.2.2 _ hmem _ mem_cons_self hx.symm
      have hafter : (x, n) ∉ after := fun hmem => (pairwise_cons.mp hdistinct.2.1).1 _ hmem hx
      simp [hax, hbefore, hafter, firstLike_congr hx.symm, copies_congr hx.symm, hlike, hcount,
        eq_comm]
    · have hne : x ≠ first := by
        rintro rfl
        exact hax hfirst.symm
      simpa [hax, hne] using hmem
  · rw [hbump]
    refine ⟨pairwise_append.mpr ⟨h.distinct, pairwise_singleton _ _, by simpa using hnone⟩,
      fun x n => ?_⟩
    rw [firstLike_append, copies_append, mem_append, h.mem_iff, mem_singleton, Prod.mk.injEq]
    by_cases hax : content a = content x
    · -- a content without a group is a content nobody has yet
      have hnew : ∀ y ∈ items, content y ≠ content x := by
        intro y hy hyx
        obtain ⟨z, hz, -, hzy⟩ := exists_firstLike content hy
        exact hnone _ ((h.mem_iff z _).mpr ⟨hz, rfl⟩) (hzy.trans (hyx.trans hax.symm))
      have hlike : firstLike content items x = none := by simpa [firstLike] using hnew
      have hcopies : copies content items x = 0 := by simpa [copies, countP_eq_zero] using hnew
      simp [hax, hlike, hcopies, eq_comm]
    · have hne : x ≠ a := by
        rintro rfl
        exact hax rfl
      simp [hax, hne]

theorem tallied_tally (items : List α) : Tallied content items (tally same items) := by
  -- the fold from the middle of the list on, for the induction
  have hfold : ∀ (rest done : List α) (groups : List (α × Nat)), Tallied content done groups →
      Tallied content (done ++ rest) (rest.foldl (Plurality.bump same) groups) := by
    intro rest
    induction rest with
    | nil => intro done groups h; simpa using h
    | cons a rest ih =>
      intro done groups h
      have := ih (done ++ [a]) _ (h.bump hsame)
      rwa [append_assoc] at this
  refine hfold items [] [] ⟨List.Pairwise.nil, ?_⟩
  intro x n
  simp [firstLike]

theorem nodup_leaders (items : List α) : (leaders same items).Nodup := by
  have hdistinct := (tallied_tally hsame items).distinct
  refine List.Pairwise.map _ ?_ (hdistinct.sublist filter_sublist)
  intro p q hpq heq
  exact hpq (congrArg content heq)

/-- The leaders are the winners. -/
theorem mem_leaders {x : α} : x ∈ leaders same items ↔ Wins content items x := by
  have h := tallied_tally hsame items
  -- the copies of any item are the count of some group
  have hgroup : ∀ y ∈ items, copies content items y ∈ (tally same items).map Prod.snd := by
    intro y hy
    obtain ⟨z, hz, -, hzy⟩ := exists_firstLike content hy
    rw [← copies_congr hzy]
    exact mem_map.mpr ⟨(z, _), (h.mem_iff _ _).mpr ⟨hz, rfl⟩, rfl⟩
  have hcount : ∀ n ∈ (tally same items).map Prod.snd,
      ∃ y ∈ items, n = copies content items y := by
    intro n hn
    obtain ⟨⟨z, m⟩, hmem, rfl⟩ := mem_map.mp hn
    obtain ⟨hz, hm⟩ := (h.mem_iff z m).mp hmem
    exact ⟨z, (mem_of_firstLike hz).1, hm⟩
  unfold leaders
  simp only [mem_map, mem_filter, decide_eq_true_eq]
  constructor
  · rintro ⟨⟨x', n⟩, ⟨hmem, hmax⟩, rfl⟩
    obtain ⟨hfirst, hn⟩ := (h.mem_iff x' n).mp hmem
    refine ⟨hfirst, ?_⟩
    intro y hy
    have hnonempty : (tally same items).map Prod.snd ≠ [] :=
      ne_nil_of_mem (hgroup y hy)
    obtain ⟨m, hm⟩ := Option.ne_none_iff_exists'.mp (mt List.max?_eq_none_iff.mp hnonempty)
    have hle := (List.max?_eq_some_iff.mp hm).2 _ (hgroup y hy)
    rw [hm, Option.getD_some] at hmax
    rw [← hn]
    exact hle.trans hmax.ge
  · rintro ⟨hfirst, hmost⟩
    have hmem := hgroup x (mem_of_firstLike hfirst).1
    obtain ⟨m, hm⟩ := Option.ne_none_iff_exists'.mp
      (mt List.max?_eq_none_iff.mp (ne_nil_of_mem hmem))
    obtain ⟨hmaxMem, hmax⟩ := List.max?_eq_some_iff.mp hm
    obtain ⟨y, hy, hmy⟩ := hcount m hmaxMem
    refine ⟨(x, copies content items x), ⟨(h.mem_iff _ _).mpr ⟨hfirst, rfl⟩, ?_⟩, rfl⟩
    have hle := hmax _ hmem
    have hge := hmost y hy
    simp only [hm, Option.getD_some]
    omega

end Groups

/-- Somebody wins. -/
theorem exists_wins (content : α → κ) (h : items ≠ []) : ∃ x, Wins content items x := by
  classical
  obtain ⟨y, hy, hmost⟩ := Finset.exists_max_image items.toFinset (copies content items)
    (toFinset_nonempty_iff _ |>.mpr h)
  obtain ⟨z, hz, -, hzy⟩ := exists_firstLike content (mem_toFinset.mp hy)
  refine ⟨z, hz, ?_⟩
  intro w hw
  rw [copies_congr hzy]
  exact hmost w (mem_toFinset.mpr hw)

/-! ### The highest counter -/

variable {counter : α → Nat}

def top (counter : α → Nat) (items : List α) : List α :=
  items.filter fun x => ∀ y ∈ items, counter y ≤ counter x

/-- `x` came first of its content, which has the most copies, at the highest counter. -/
def Leads (counter : α → Nat) (content : α → κ) (items : List α) (x : α) : Prop :=
  Wins content (top counter items) x

def LeadsAlone (counter : α → Nat) (content : α → κ) (items : List α) (x : α) : Prop :=
  ∀ y, Leads counter content items y ↔ y = x

theorem mem_top : x ∈ top counter items ↔ x ∈ items ∧ ∀ y ∈ items, counter y ≤ counter x := by
  simp [top]

theorem top_ne_nil (counter : α → Nat) (h : items ≠ []) : top counter items ≠ [] := by
  classical
  obtain ⟨x, hx, hmax⟩ := Finset.exists_max_image items.toFinset counter
    (toFinset_nonempty_iff _ |>.mpr h)
  refine ne_nil_of_mem (mem_top.mpr ⟨mem_toFinset.mp hx, ?_⟩)
  exact fun y hy => hmax y (mem_toFinset.mpr hy)

theorem exists_leads (counter : α → Nat) (content : α → κ) (h : items ≠ []) :
    ∃ x, Leads counter content items x :=
  exists_wins content (top_ne_nil counter h)

theorem Leads.mem_top (h : Leads counter content items x) : x ∈ top counter items :=
  (mem_of_firstLike h.1).1

/-- Of copies of one item the item wins. -/
theorem wins_of_forall_eq (hne : items ≠ []) (h : ∀ z ∈ items, z = x) :
    Wins content items y ↔ y = x := by
  constructor
  · intro hwins
    exact h y (mem_of_firstLike hwins.1).1
  · rintro rfl
    obtain ⟨z, rest, rfl⟩ := exists_cons_of_ne_nil hne
    obtain rfl := h z mem_cons_self
    refine ⟨by simp [firstLike], ?_⟩
    intro other hother
    rw [h other hother]

/-- Of copies of one item the item leads alone. -/
theorem leadsAlone_of_forall_eq (hne : items ≠ []) (h : ∀ z ∈ items, z = x) :
    LeadsAlone counter content items x := by
  intro y
  have htop : top counter items = items := by
    refine filter_eq_self.mpr fun z hz => decide_eq_true ?_
    intro other hother
    rw [h other hother, h z hz]
  rw [Leads, htop, wins_of_forall_eq hne h]

/-- One counter's items keep their order when sorted by counter. -/
theorem filter_mergeSort (items : List α) (n : Nat) :
    (items.mergeSort fun a b => counter a ≤ counter b).filter (fun x => counter x = n)
      = items.filter fun x => counter x = n := by
  have hsub : (items.filter fun x => counter x = n).Sublist
      (items.mergeSort fun a b => counter a ≤ counter b) := by
    refine sublist_mergeSort ?_ ?_ ?_ filter_sublist
    · intro a b c hab hbc
      simp only [decide_eq_true_eq] at hab hbc ⊢
      omega
    · intro a b
      simp only [Bool.or_eq_true, decide_eq_true_eq]
      omega
    · refine pairwise_of_forall_mem_list ?_
      intro a ha b hb
      simp only [mem_filter, decide_eq_true_eq] at ha hb ⊢
      omega
  have hfilter := hsub.filter fun x => decide (counter x = n)
  rw [filter_filter] at hfilter
  simp only [Bool.and_self] at hfilter
  refine (hfilter.eq_of_length ?_).symm
  exact ((mergeSort_perm items _).filter _).length_eq.symm

variable (counter) in
/-- Sorting by counter and keeping what ties with the last leaves the highest counter. -/
theorem filter_last_eq_top {last : α}
    (h : (items.mergeSort fun a b => counter a ≤ counter b).getLast? = some last) :
    (items.mergeSort fun a b => counter a ≤ counter b).filter
      (fun x => counter x = counter last) = top counter items := by
  have hsorted : (items.mergeSort fun a b => counter a ≤ counter b).Pairwise
      fun a b => counter a ≤ counter b := by
    have := @pairwise_mergeSort α (fun a b => decide (counter a ≤ counter b))
      (by simp only [decide_eq_true_eq]; omega)
      (by simp only [Bool.or_eq_true, decide_eq_true_eq]; omega) items
    simpa using this
  have hmem : last ∈ items := by
    have := mem_of_getLast? h
    rwa [(mergeSort_perm items _).mem_iff] at this
  have hmax : ∀ y ∈ items, counter y ≤ counter last := by
    obtain ⟨front, hfront⟩ := List.getLast?_eq_some_iff.mp h
    intro y hy
    rw [← (mergeSort_perm items fun a b => counter a ≤ counter b).mem_iff, hfront] at hy
    rw [hfront, pairwise_append] at hsorted
    rcases mem_append.mp hy with hy | hy
    · exact hsorted.2.2 y hy last (mem_singleton.mpr rfl)
    · exact le_of_eq (congrArg counter (mem_singleton.mp hy))
  rw [filter_mergeSort, top]
  refine filter_congr ?_
  intro x hx
  simp only [decide_eq_decide]
  constructor
  · intro heq y hy
    exact heq ▸ hmax y hy
  · intro hx'
    exact le_antisymm (hmax x hx) (hx' last hmem)

/-! ### Items that should not count

Let some items be good and let copies be good or bad together.  The bad items make
no difference exactly when each of them is outdone by a good one.
-/

/-- How many items have the counter and the content of `x`. -/
def copiesAt (counter : α → Nat) (content : α → κ) (items : List α) (x : α) : Nat :=
  items.countP fun y => counter y = counter x ∧ content y = content x

theorem copies_top (hx : x ∈ top counter items) :
    copies content (top counter items) x = copiesAt counter content items x := by
  unfold copies copiesAt top
  rw [countP_filter]
  refine countP_congr ?_
  intro y hy
  have hmax := (mem_top.mp hx).2
  simp only [Bool.and_eq_true, decide_eq_true_eq]
  constructor
  · rintro ⟨hcontent, hall⟩
    exact ⟨le_antisymm (hmax y hy) (hall x (mem_top.mp hx).1), hcontent⟩
  · rintro ⟨hcounter, hcontent⟩
    exact ⟨hcontent, fun z hz => hcounter ▸ hmax z hz⟩

variable {good : α → Bool}

/-- Once a good item has the highest counter, dropping the bad ones keeps the others there. -/
theorem top_filter (hx : x ∈ top counter items) (hgood : good x = true) :
    top counter (items.filter good) = (top counter items).filter good := by
  obtain ⟨hmem, hmax⟩ := mem_top.mp hx
  unfold top
  rw [filter_filter, filter_filter]
  refine filter_congr ?_
  intro y hy
  rw [Bool.and_comm]
  cases hy' : good y with
  | false => simp
  | true =>
    simp only [Bool.true_and, decide_eq_decide]
    constructor
    · intro hall z hz
      exact (hmax z hz).trans (hall x (mem_filter.mpr ⟨hmem, hgood⟩))
    · intro hall z hz
      exact hall z (mem_filter.mp hz).1

section Homogeneous

variable (hclass : ∀ x ∈ items, ∀ y ∈ items,
  counter x = counter y → content x = content y → good x = good y)
include hclass

omit [DecidableEq κ] in
/-- At the highest counter, the items like a good one are good. -/
theorem good_of_like {x y : α} (hx : x ∈ top counter items) (hgood : good x = true)
    (hy : y ∈ top counter items) (h : content y = content x) : good y = true := by
  obtain ⟨hyMem, hyMax⟩ := mem_top.mp hy
  obtain ⟨hxMem, hxMax⟩ := mem_top.mp hx
  rw [hclass y hyMem x hxMem (le_antisymm (hxMax y hyMem) (hyMax x hxMem)) h, hgood]

theorem firstLike_filter {x : α} (hx : x ∈ top counter items) (hgood : good x = true) :
    firstLike content ((top counter items).filter good) x
      = firstLike content (top counter items) x := by
  unfold firstLike
  rw [← List.head?_filter, ← List.head?_filter, filter_filter]
  refine congrArg List.head? (filter_congr fun y hy => ?_)
  by_cases h : content y = content x
  · simp [h, good_of_like hclass hx hgood hy h]
  · simp [h]

theorem copies_filter {x : α} (hx : x ∈ top counter items) (hgood : good x = true) :
    copies content ((top counter items).filter good) x
      = copies content (top counter items) x := by
  unfold copies
  rw [countP_filter]
  refine countP_congr fun y hy => ?_
  by_cases h : content y = content x
  · simp [h, good_of_like hclass hx hgood hy h]
  · simp [h]

variable (content) in
theorem leads_filter_iff (hsome : ∃ x ∈ items, good x = true) :
    (∀ x, Leads counter content items x ↔ Leads counter content (items.filter good) x) ↔
      ∀ bad ∈ items, good bad = false → ∃ x ∈ items, good x = true ∧
        (counter bad < counter x ∨ counter bad = counter x ∧
          copiesAt counter content items bad < copiesAt counter content items x) := by
  have hnonempty : items ≠ [] := by
    obtain ⟨x, hx, -⟩ := hsome
    exact ne_nil_of_mem hx
  constructor
  · intro hsame bad hbad hfalse
    obtain ⟨x, hleads⟩ := exists_leads counter content hnonempty
    have hx := hleads.mem_top
    obtain ⟨hxMem, hxMax⟩ := mem_top.mp hx
    have hgood : good x = true :=
      (mem_filter.mp (mem_top.mp ((hsame x).mp hleads).mem_top).1).2
    refine ⟨x, hxMem, hgood, ?_⟩
    rcases Nat.lt_or_eq_of_le (hxMax bad hbad) with hlt | heq
    · exact .inl hlt
    refine .inr ⟨heq, ?_⟩
    have hbadTop : bad ∈ top counter items :=
      mem_top.mpr ⟨hbad, fun y hy => heq ▸ hxMax y hy⟩
    rw [← copies_top hx, ← copies_top hbadTop]
    refine lt_of_le_of_ne (hleads.2 bad hbadTop) ?_
    -- with as many copies, the first of its content would lead as well
    intro hcopies
    obtain ⟨z, hz, hzTop, hzbad⟩ := exists_firstLike content hbadTop
    have hzLeads : Leads counter content items z := by
      refine ⟨hz, ?_⟩
      rw [copies_congr hzbad, hcopies]
      exact hleads.2
    have hzGood : good z = true :=
      (mem_filter.mp (mem_top.mp ((hsame z).mp hzLeads).mem_top).1).2
    rw [good_of_like hclass hzTop hzGood hbadTop hzbad.symm] at hfalse
    cases hfalse
  · intro hall
    -- nothing bad leads
    have hleadsGood : ∀ x, Leads counter content items x → good x = true := by
      intro x hleads
      have hx := hleads.mem_top
      obtain ⟨hxMem, hxMax⟩ := mem_top.mp hx
      by_contra hne
      obtain ⟨y, hy, -, hlt | ⟨heq, hlt⟩⟩ := hall x hxMem (by simpa using hne)
      · exact absurd (hxMax y hy) (Nat.not_le.mpr hlt)
      · have hyTop : y ∈ top counter items :=
          mem_top.mpr ⟨hy, fun z hz => heq ▸ hxMax z hz⟩
        rw [← copies_top hx, ← copies_top hyTop] at hlt
        exact absurd (hleads.2 y hyTop) (Nat.not_le.mpr hlt)
    obtain ⟨w, hw⟩ := exists_leads counter content hnonempty
    have hwGood := hleadsGood w hw
    have htop := top_filter hw.mem_top hwGood
    intro x
    unfold Leads
    rw [htop]
    constructor
    · intro hleads
      have hgood := hleadsGood x hleads
      have hx : x ∈ top counter items := (mem_of_firstLike hleads.1).1
      refine ⟨(firstLike_filter hclass hx hgood).trans hleads.1, ?_⟩
      intro y hy
      obtain ⟨hyTop, hyGood⟩ := mem_filter.mp hy
      rw [copies_filter hclass hx hgood, copies_filter hclass hyTop hyGood]
      exact hleads.2 y hyTop
    · intro hleads
      obtain ⟨hx, hgood⟩ := mem_filter.mp (mem_of_firstLike hleads.1).1
      refine ⟨(firstLike_filter hclass hx hgood).symm.trans hleads.1, ?_⟩
      intro y hy
      have hwx := hleads.2 w (mem_filter.mpr ⟨hw.mem_top, hwGood⟩)
      rw [copies_filter hclass hx hgood, copies_filter hclass hw.mem_top hwGood] at hwx
      exact (hw.2 y hy).trans hwx

end Homogeneous

end Lib.Plurality
