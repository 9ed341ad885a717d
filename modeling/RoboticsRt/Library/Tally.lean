import RoboticsRt.Library.Lists
import Mathlib.Algebra.BigOperators.Group.List.Basic
import Mathlib.Algebra.Ring.Defs
import Mathlib.Data.List.Induction
import Mathlib.Data.Nat.Cast.Basic
import Std.Data.TreeMap.Lemmas

/-! Counting how often each key occurs, with counters of any semiring: machine counters
wrap around together with the numbers they stand for. -/

namespace Tally
open Std

variable {κ R : Type} [Ord κ] [CommSemiring R]

def increment (counts : TreeMap κ R) (key : κ) : TreeMap κ R := counts.insert key (counts.getD key 0 + 1)

def tally (keys : List κ) : TreeMap κ R := keys.foldl increment ∅

def total (counts : TreeMap κ R) : R := counts.foldl (fun n _ count => n + count) 0

theorem tally_append (keys : List κ) (key : κ) :
    tally (keys ++ [key]) = increment (tally keys : TreeMap κ R) key := List.foldl_append

theorem total_eq (counts : TreeMap κ R) : total counts = (counts.toList.map Prod.snd).sum := by
  rw [total, TreeMap.foldl_eq_foldl_toList, List.sum_eq_foldl, List.foldl_map]

variable [DecidableEq κ] [TransOrd κ] [LawfulEqOrd κ]

theorem getD_tally (keys : List κ) (key : κ) : (tally keys : TreeMap κ R).getD key 0 = keys.count key := by
  induction keys using List.reverseRecOn with
  | nil => simp [tally]
  | append_singleton keys last ih =>
    rw [tally_append, increment, TreeMap.getD_insert, List.count_append, List.count_singleton]
    by_cases same : last = key
    · subst same
      simp [ih]
    · simp [same, ih]

omit [Ord κ] [TransOrd κ] [LawfulEqOrd κ] in
/-- One key's entry apart from the others. -/
theorem sum_split {entries : List (κ × R)} (distinct : (entries.map Prod.fst).Nodup) (key : κ) :
    (entries.map Prod.snd).sum =
      (entries.lookup key).getD 0 + ((entries.filter fun entry => ¬ (key == entry.1)).map Prod.snd).sum := by
  induction entries with
  | nil => rw [List.filter_nil, List.lookup_nil, Option.getD_none, zero_add]
  | cons entry rest ih =>
    obtain ⟨first, value⟩ := entry
    obtain ⟨fresh, distinct⟩ := List.nodup_cons.mp distinct
    rw [List.map_cons, List.sum_cons, List.lookup_cons]
    by_cases same : key = first
    · have all : rest.filter (fun entry => ¬ (key == entry.1)) = rest := by
        refine List.filter_eq_self.mpr fun entry member => decide_eq_true fun found => fresh ?_
        have here : first = entry.1 := same.symm.trans (eq_of_beq found)
        exact List.mem_map.mpr ⟨entry, member, here.symm⟩
      rw [List.filter_cons_of_neg (by simp [same]), all, beq_iff_eq.mpr same]
      rfl
    · rw [List.filter_cons_of_pos (by simp [same]), List.map_cons, List.sum_cons, ih distinct,
        beq_eq_false_iff_ne.mpr same, add_left_comm]

omit [CommSemiring R] [DecidableEq κ] in
theorem distinct_keys (counts : TreeMap κ R) : (counts.toList.map Prod.fst).Nodup := by
  refine List.pairwise_map.mpr (counts.distinct_keys_toList.imp fun apart same => apart ?_)
  rw [same]
  exact ReflOrd.compare_self

theorem getD_eq_lookup (counts : TreeMap κ R) (key : κ) : counts.getD key 0 = (counts.toList.lookup key).getD 0 := by
  rw [TreeMap.getD_eq_getD_getElem?]
  congr 1
  ext value
  rw [← TreeMap.mem_toList_iff_getElem?_eq_some]
  exact ⟨Assoc.lookup_of_mem (distinct_keys counts), Assoc.mem_of_lookup⟩

theorem total_increment (counts : TreeMap κ R) (key : κ) : total (increment counts key) = total counts + (1 : R) := by
  have inserted := (TreeMap.toList_insert_perm (t := counts) (k := key) (v := counts.getD key 0 + 1)).map Prod.snd
  rw [total_eq, increment, inserted.sum_eq, List.map_cons, List.sum_cons, total_eq,
    sum_split (distinct_keys counts) key, ← getD_eq_lookup, add_right_comm]

theorem total_tally (keys : List κ) : total (tally keys : TreeMap κ R) = (keys.length : R) := by
  induction keys using List.reverseRecOn with
  | nil =>
    rw [List.length_nil, Nat.cast_zero]
    rfl
  | append_singleton keys last ih =>
    rw [tally_append, total_increment, ih, List.length_append, List.length_singleton, Nat.cast_succ]

end Tally
