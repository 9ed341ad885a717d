import RoboticsRt.Ubsan.Count

/-! Printed counts against the module they are printed for. The first printer run caches
its result, no pass ever drops it, and every later run prints it again. -/

namespace RoboticsRt.Ubsan
open Llvm

def siteCount (M : Module) (kind : String) : Nat := (siteNames M).count kind

def Line.countOf (kind : String) : Line → Option Nat
  | .kind name count => if name = kind then some count.toNat else none
  | .total _ _ => none

def Line.sites : Line → Option Nat
  | .total _ sites => some sites.toNat
  | .kind _ _ => none

/-- What a reader takes from the lines; a callee without a line has no sites. -/
def reportedCount (lines : List Line) (kind : String) : Nat := (lines.findSome? (Line.countOf kind)).getD 0

def reportedTotal (lines : List Line) : Nat := (lines.findSome? Line.sites).getD 0

structure Current (M : Module) (lines : List Line) : Prop where
  kinds : ∀ kind, reportedCount lines kind = siteCount M kind
  total : reportedTotal lines = (siteNames M).length

theorem reportedTotal_result (M : Module) (res : UBSanCountResult) :
    reportedTotal (printResult M res) = res.total.toNat := by
  unfold printResult
  split
  next none =>
    rw [none]
    rfl
  · rfl

theorem reportedCount_entries (entries : List (String × Unsigned)) (kind : String) :
    reportedCount (entries.map fun entry => .kind entry.1 entry.2) kind = ((entries.lookup kind).getD 0).toNat := by
  induction entries with
  | nil => rfl
  | cons entry rest ih =>
    obtain ⟨name, count⟩ := entry
    rw [List.map_cons, reportedCount, List.findSome?_cons, Line.countOf, List.lookup_cons]
    by_cases same : name = kind
    · rw [if_pos same, beq_iff_eq.mpr same.symm]
      rfl
    · rw [if_neg same, beq_eq_false_iff_ne.mpr (Ne.symm same)]
      exact ih

theorem reportedCount_result (M : Module) (res : UBSanCountResult) (kind : String) :
    reportedCount (printResult M res) kind = if res.total = 0 then 0 else (res.countsByKind.getD kind 0).toNat := by
  unfold printResult
  split
  · rfl
  · rw [Tally.getD_eq_lookup, ← reportedCount_entries]
    rfl

/-- The counts of one module are current for another when none has wrapped around and
they are its own. -/
theorem current_iff {M counted : Module} :
    Current M (printResult M (countSites counted)) ↔
      (siteNames counted).length % 2 ^ 32 = (siteNames M).length ∧
        ∀ kind, siteCount M kind =
          if (siteNames counted).length % 2 ^ 32 = 0 then 0 else siteCount counted kind % 2 ^ 32 := by
  have total : (countSites counted).total.toNat = (siteNames counted).length % 2 ^ 32 := by
    rw [UBSanCountResult.total, countSites, Tally.total_tally, BitVec.natCast_eq_ofNat, BitVec.toNat_ofNat]
  have zero : (countSites counted).total = 0 ↔ (siteNames counted).length % 2 ^ 32 = 0 := by
    rw [← total, BitVec.toNat_eq]
    rfl
  have count (kind : String) :
      ((countSites counted).countsByKind.getD kind 0).toNat = siteCount counted kind % 2 ^ 32 := by
    rw [countSites, Tally.getD_tally, BitVec.natCast_eq_ofNat, BitVec.toNat_ofNat, siteCount]
  constructor
  · intro ⟨kinds, sum⟩
    rw [reportedTotal_result, total] at sum
    refine ⟨sum, fun kind => ?_⟩
    rw [← kinds kind, reportedCount_result, count]
    simp only [zero]
  · intro ⟨sum, kinds⟩
    constructor
    · intro kind
      rw [kinds kind, reportedCount_result, count]
      simp only [zero]
    · rw [reportedTotal_result, total, sum]

theorem siteCount_le (M : Module) (kind : String) : siteCount M kind ≤ (siteNames M).length := List.count_le_length

theorem current_self_iff {M : Module} :
    Current M (printResult M (countSites M)) ↔ (siteNames M).length < 2 ^ 32 := by
  rw [current_iff]
  constructor
  · intro ⟨sum, _⟩
    omega
  · intro small
    refine ⟨Nat.mod_eq_of_lt small, fun kind => ?_⟩
    have bound := siteCount_le M kind
    rw [Nat.mod_eq_of_lt small, Nat.mod_eq_of_lt (by omega)]
    split
    · omega
    · rfl

theorem current_other_iff {M counted : Module} (small : (siteNames counted).length < 2 ^ 32) :
    Current M (printResult M (countSites counted)) ↔ ∀ kind, siteCount M kind = siteCount counted kind := by
  have own (kind : String) : siteCount counted kind =
      if (siteNames counted).length % 2 ^ 32 = 0 then 0 else siteCount counted kind % 2 ^ 32 :=
    (current_iff.mp (current_self_iff.mpr small)).2 kind
  rw [Nat.mod_eq_of_lt small] at own
  rw [current_iff, Nat.mod_eq_of_lt small]
  constructor
  · intro ⟨_, kinds⟩ kind
    rw [kinds kind, ← own kind]
  · intro same
    have permuted : (siteNames counted).Perm (siteNames M) := List.perm_iff_count.mpr fun kind => (same kind).symm
    exact ⟨permuted.length_eq, fun kind => (same kind).trans (own kind)⟩

/-! Along a pipeline. -/

def printerModules : List Pass → Module → List Module
  | [], _ => []
  | .transform run :: rest, M => printerModules rest (run M).1
  | .printer :: rest, M => M :: printerModules rest M

theorem invalidate_keeps (state : Pipeline) (preserved : PreservedAnalyses) : state.invalidate preserved = state := by
  unfold Pipeline.invalidate
  split
  · rfl
  · cases state with
    | mk module cached => cases cached <;> rfl

theorem printed_transform (change : Module → Module × PreservedAnalyses) (rest : List Pass) (state : Pipeline) :
    printed (.transform change :: rest) state = printed rest { state with module := (change state.module).1 } := by
  simp only [printed, Pipeline.run, invalidate_keeps]
  rfl

theorem printed_printer (rest : List Pass) (state : Pipeline) :
    printed (.printer :: rest) state =
      (state.module, printResult state.module state.getResult) ::
        printed rest { state with cached := some state.getResult } := by
  simp only [printed, Pipeline.run, invalidate_keeps]
  rfl

theorem printed_modules (passes : List Pass) (state : Pipeline) :
    (printed passes state).map Prod.fst = printerModules passes state.module := by
  induction passes generalizing state with
  | nil => rfl
  | cons pass rest ih =>
    cases pass with
    | transform run => rw [printed_transform, ih, printerModules]
    | printer => rw [printed_printer, List.map_cons, ih, printerModules]

theorem printed_cached {passes : List Pass} {state : Pipeline} {res : UBSanCountResult}
    (cached : state.cached = some res) : ∀ run ∈ printed passes state, run.2 = printResult run.1 res := by
  induction passes generalizing state with
  | nil => intro run member; cases member
  | cons pass rest ih =>
    intro run member
    cases pass with
    | transform change =>
      rw [printed_transform] at member
      refine ih ?_ run member
      exact cached
    | printer =>
      have result : state.getResult = res := by rw [Pipeline.getResult, cached, Option.getD_some]
      rw [printed_printer, result] at member
      rcases List.mem_cons.mp member with rfl | later
      · rfl
      · exact ih rfl run later

/-- `invalidate` keeps the result whatever the passes in between preserved, so every later printer
shows the first one. -/
theorem printed_fresh {passes : List Pass} {M : Module} {first : Module × List Line} {rest : List (Module × List Line)}
    (runs : printed passes ⟨M, none⟩ = first :: rest) :
    ∀ run ∈ first :: rest, run.2 = printResult run.1 (countSites first.1) := by
  induction passes generalizing M with
  | nil => cases runs
  | cons pass later ih =>
    cases pass with
    | transform change =>
      rw [printed_transform] at runs
      exact ih runs
    | printer =>
      rw [printed_printer] at runs
      obtain ⟨rfl, rfl⟩ := List.cons.inj runs
      intro run member
      rcases List.mem_cons.mp member with rfl | after
      · rfl
      · exact printed_cached rfl run after

/-- The counts do not change after the first run, and they fit the counters. -/
def Steady : List Module → Prop
  | [] => True
  | first :: rest => (siteNames first).length < 2 ^ 32 ∧ ∀ M ∈ rest, ∀ kind, siteCount M kind = siteCount first kind

theorem counts_current_iff (M : Module) (passes : List Pass) :
    (∀ run ∈ printed passes ⟨M, none⟩, Current run.1 run.2) ↔ Steady (printerModules passes M) := by
  rw [← printed_modules passes ⟨M, none⟩]
  cases runs : printed passes ⟨M, none⟩ with
  | nil => simp [Steady]
  | cons first rest =>
    have lines := printed_fresh runs
    have here := lines first List.mem_cons_self
    rw [List.map_cons, Steady]
    constructor
    · intro all
      have small := current_self_iff.mp (here ▸ all first List.mem_cons_self)
      refine ⟨small, fun later member => ?_⟩
      obtain ⟨run, after, rfl⟩ := List.mem_map.mp member
      have member := List.mem_cons_of_mem first after
      exact (current_other_iff small).mp (lines run member ▸ all run member)
    · intro ⟨small, same⟩ run member
      rw [lines run member, current_other_iff small]
      rcases List.mem_cons.mp member with rfl | after
      · exact fun _ => rfl
      · exact same run.1 (List.mem_map_of_mem after)

/-- A function nothing calls, with one check; a pass that drops such functions runs
between two printers. -/
def deadCheck : Module where
  name := "dead.cpp"
  functions := [("dead", ⟨[], 0, [(0, ⟨[], [⟨0, .call (some "__ubsan_handle_add_overflow"), []⟩], .ret none⟩)]⟩)]

def dropFunctions : Pass := .transform fun M => ({ M with functions := [] }, ⟨false⟩)

theorem dead_check_reported :
    ¬ ∀ run ∈ printed [.printer, dropFunctions, .printer] ⟨deadCheck, none⟩, Current run.1 run.2 := by
  intro all
  rw [dropFunctions, printed_printer, printed_transform, printed_printer] at all
  have second := (all _ (List.mem_cons_of_mem _ List.mem_cons_self)).total
  rw [reportedTotal_result] at second
  have total : (countSites deadCheck).total.toNat = 1 := by
    rw [UBSanCountResult.total, countSites, Tally.total_tally]
    decide +kernel
  rw [Pipeline.getResult, Option.getD_some, Pipeline.getResult, Option.getD_none, total] at second
  cases second

end RoboticsRt.Ubsan
