/-
The archive of a directory.

An archive maps paths to data maps.  A path is put in with slashes for backslashes, and
two paths are the same to the map if they have the same components.  On Unix a backslash
is a character like any other, so that two files can come to have one path.
-/
import Autonomi.Lib.Table

namespace Autonomi.Client

open Lib List

/-- `Path::components`: empty ones and dots are left out, but for a root or a dot in front. -/
def components (path : List Char) : List (List Char) :=
  (match path.splitOn '/' with
    | [] :: _ :: _ => [['/']]
    | ['.'] :: _ => [['.']]
    | _ => []) ++ (path.splitOn '/').filter fun name => name ∉ [[], ['.']]

def join (names : List (List Char)) : List Char := ['/'].intercalate names

/-- `replace("//", "/")` -/
def replaceSlashes : List Char → List Char
  | '/' :: '/' :: path => '/' :: replaceSlashes path
  | c :: path => c :: replaceSlashes path
  | [] => []

def normalizePath (path : List Char) : List Char :=
  replaceSlashes ((join (components path)).map fun c => if c = '\\' then '/' else c)

/-- A `BTreeMap` by paths, which are compared by their components. -/
abbrev Archive (V : Type) := Table (List (List Char)) V

def addFile {V : Type} (archive : Archive V) (path : List Char) (v : V) : Archive V :=
  archive.insert (components (normalizePath path)) v

section Files

variable {V : Type} {names : List (List Char)} {files : List (List (List Char) × V)}

/-- Each file by the names on the way to it. -/
def archiveOf (files : List (List (List Char) × V)) : Archive V :=
  files.foldl (fun archive file => addFile archive (join file.1) file.2) ∅

/-- The names of the directories a file is in, and its own. -/
def IsFilePath (names : List (List Char)) : Prop :=
  names ≠ [] ∧ ∀ name ∈ names, name ∉ [[], ['.'], ['.', '.']] ∧ '/' ∉ name

/-- Different files that can be there together: none is a directory of another. -/
def Apart (files : List (List (List Char) × V)) : Prop :=
  files.Pairwise fun file other => ¬ file.1 <+: other.1 ∧ ¬ other.1 <+: file.1

theorem components_join (h : IsFilePath names) : components (join names) = names := by
  have hsplit : (join names).splitOn '/' = names :=
    splitOn_intercalate '/' (fun name hname => (h.2 name hname).2) h.1
  have hfilter : names.filter (fun name => name ∉ [[], ['.']]) = names := by
    refine filter_eq_self.mpr fun name hname => ?_
    have hname := (h.2 name hname).1
    simp_all
  unfold components
  rw [hsplit, hfilter]
  split
  · exact absurd mem_cons_self (h.2 [] mem_cons_self).1
  · simpa using (h.2 ['.'] mem_cons_self).1
  · rfl

theorem replaceSlashes_append {name : List Char} (h : '/' ∉ name) (path : List Char) :
    replaceSlashes (name ++ path) = name ++ replaceSlashes path := by
  induction name with
  | nil => rfl
  | cons c name ih =>
    obtain ⟨hc, hname⟩ := not_or.mp (mem_cons.not.mp h)
    rw [cons_append, replaceSlashes.eq_2 _ _ fun _ heq _ => hc heq.symm, ih hname, cons_append]

/-- No name is empty, so no two slashes meet. -/
theorem replaceSlashes_join (h : ∀ name ∈ names, name ≠ [] ∧ '/' ∉ name) :
    replaceSlashes (join names) = join names := by
  induction names with
  | nil => rfl
  | cons name names ih =>
    obtain ⟨⟨-, hname⟩, hrest⟩ := forall_mem_cons.mp h
    cases names with
    | nil => simpa [join, replaceSlashes] using replaceSlashes_append hname []
    | cons next names =>
      have hslash : ∀ path, join (next :: names) ≠ '/' :: path := by
        intro path heq
        obtain ⟨hne, hnext⟩ := hrest next mem_cons_self
        obtain ⟨c, next, rfl⟩ := exists_cons_of_ne_nil hne
        cases names with
        | nil => simp_all [join]
        | cons => simp_all [join]
      have hjoin : join (name :: next :: names) = name ++ '/' :: join (next :: names) := by
        simp [join]
      rw [hjoin, replaceSlashes_append hname,
        replaceSlashes.eq_2 _ _ fun path _ heq => hslash path heq, ih hrest]

theorem normalizePath_join (h : IsFilePath names) (hplain : '\\' ∉ join names) :
    normalizePath (join names) = join names := by
  have hsame : (join names).map (fun c => if c = '\\' then '/' else c) = join names := by
    refine (map_congr_left fun c hc => if_neg ?_).trans (map_id _)
    rintro rfl
    exact hplain hc
  rw [normalizePath, components_join h, hsame]
  refine replaceSlashes_join fun name hname => ⟨?_, (h.2 name hname).2⟩
  rintro rfl
  exact (h.2 [] hname).1 mem_cons_self

end Files

end Autonomi.Client
