import SkipCode.Proofs.Passes

/-!
# The warning about the ceiling

The image that a pass ships may be its own, a part of it, or one from before. Whichever it is, a
pass that got as far as lowering units counts the elements of what it ships and warns if they are
too many. A program that is refused before any unit is lowered is answered on a way of its own, on
which nobody looks at the ceiling, although the image from before that is shipped then may be over
it.

* `Compiler.warnings_compile`: the warnings of one compilation;
* `Course.warns`: those of every pass of a compiler, whatever came before;
* `ceiling_not_watched`: a refused program is answered with an image over the ceiling and no
  warning.
-/

namespace SkipCode

open Source (Program Rule)

/-- What a compilation reports beside errors. -/
def Compilation.warnings (result : Compilation) : List Diagnostic :=
  result.diagnostics.filter fun d => !d.isError

/-- The warning that an image has more elements than a target takes. -/
def overCeiling (config : LowerConfig) (image : Image) : Diagnostic :=
  ⟨Compiler.wholeProgram, .overCeiling image.count config.elementCeiling⟩

namespace Pass

/-- Lowering units reports errors only. -/
def OnlyErrors (p : Pass) : Prop := ∀ d ∈ p.diagnostics, d.isError = true

variable {p : Pass}

/-- Errors of a unit are errors. -/
theorem OnlyErrors.append (h : p.OnlyErrors) (unit : String) (errors : List LowerError) :
    ∀ d ∈ p.diagnostics ++ errors.map fun e => ⟨unit, .error e⟩, d.isError = true := by
  refine List.forall_mem_append.2 ⟨h, fun d mem => ?_⟩
  obtain ⟨e, -, rfl⟩ := List.mem_map.1 mem
  rfl

/-- A unit that was lowered adds only errors. -/
theorem OnlyErrors.accept (h : p.OnlyErrors) (unit : String) (output : UnitOutput) :
    (p.accept unit output).OnlyErrors := by
  cases clean : output.clean? with
  | some list =>
    rw [p.accept_clean unit clean]
    exact h
  | none =>
    obtain ⟨e, errors, accepted⟩ := p.accept_unclean unit clean
    rw [accepted]
    exact h.append unit (e :: errors)

/-- So does one that was rejected. -/
theorem OnlyErrors.reject (h : p.OnlyErrors) (unit : String) (e : LowerError) :
    (p.reject unit e).OnlyErrors := h.append unit [e]

/-- A pass reports only errors. -/
theorem onlyErrors {σ : Session} {program : Program} (done : σ.pass program = some p) :
    p.OnlyErrors :=
  Pass.keep (fun unit output h => OnlyErrors.accept h unit output)
    (fun unit e h => OnlyErrors.reject h unit e) done (List.forall_mem_nil _)

end Pass

namespace Compiler

variable {c c' : Compiler} {program : Program} {result : Compilation}

/-- Falling back has the warnings that it is given. -/
theorem warnings_fallBack (part : Image) (diagnostics : List Diagnostic) :
    (c.fallBack part diagnostics).warnings = diagnostics.filter fun d => !d.isError := by
  unfold fallBack
  split <;> rfl

/-- A look at the ceiling adds a warning to those that are there, if there is something to warn of.
-/
theorem warnings_warnCeiling (counted : result.count = result.image.count) :
    (c.warnCeiling result).warnings = result.warnings ++
      if c.config.elementCeiling < result.image.count then [overCeiling c.config result.image] else
        [] := by
  rw [warnCeiling, counted]
  split
  · rw [Compilation.warnings, List.filter_append]
    rfl
  · exact (List.append_nil _).symm

/-- A compilation that lowers units warns once if it ships an image over the ceiling, and else not.
One whose program is refused as a whole does not warn. -/
theorem warnings_compile (done : c.compile program = some (result, c')) :
    (∀ σ, Session.new c.config program = .ok σ → result.warnings =
      if c.config.elementCeiling < result.image.count then
        [overCeiling c.config result.image] else []) ∧
    ∀ e, Session.new c.config program = .error e → result.warnings = [] := by
  obtain ⟨e, refused, rfl, rfl⟩ | ⟨σ, pass, start, made, outcome⟩ := compile_pass done
  · refine ⟨fun σ start => ?_, fun e refused => warnings_fallBack _ _⟩
    cases refused.symm.trans start
  have quiet : pass.diagnostics.filter (fun d => !d.isError) = [] :=
    List.filter_eq_nil_iff.2 fun d mem => by simp [Pass.onlyErrors made d mem]
  refine ⟨fun σ start => ?_, fun e refused => by cases start.symm.trans refused⟩
  -- of both images it is the one that is shipped that is counted
  obtain ⟨-, rfl, -⟩ | ⟨-, rfl, -⟩ := outcome
  · rw [warnings_warnCeiling (count_fallBack _ _), warnings_fallBack, quiet, image_warnCeiling,
      List.nil_append]
  · rw [warnings_warnCeiling rfl, Compilation.warnings, quiet, image_warnCeiling, List.nil_append]

end Compiler

section

variable {config : LowerConfig} {past : List (Program × Compilation)} {c : Compiler}

/-- Every pass of a compiler that got as far as lowering units, whether they all lowered or not, has
the warning exactly if what it shipped is over the ceiling, with the numbers of that image, once and
with no other warning. A pass over a program that was refused as a whole has none. -/
theorem Course.warns (course : Course config past c) :
    ∀ pass ∈ past,
      (∀ σ, Session.new config pass.1 = .ok σ → pass.2.warnings =
        if config.elementCeiling < pass.2.image.count then
          [overCeiling config pass.2.image] else []) ∧
      ∀ e, Session.new config pass.1 = .error e → pass.2.warnings = [] := by
  induction course with
  | new => exact List.forall_mem_nil _
  | pass before done ih =>
    have now := Compiler.warnings_compile done
    rw [before.config_eq] at now
    exact List.forall_mem_cons.2 ⟨now, ih⟩

end

namespace Ceiling

/-- Settings for a target that takes one element. -/
def config : LowerConfig := { LowerConfig.default with elementCeiling := 1 }

/-- A program that declares one function twice. -/
def refused : Program := ⟨[], [.named "f" [] [], .named "f" [] []], []⟩

end Ceiling

open FailedPass Ceiling in
/-- A clean pass and one that falls back both warn of the image of the former. -/
theorem warnings_good_bad : ∃ first c₁ second c₂,
    (Compiler.new config).compile good = some (first, c₁) ∧ c₁.compile bad = some (second, c₂) ∧
      second.stale = ["first"] ∧ first.warnings = [overCeiling config first.image] ∧
      second.warnings = [overCeiling config second.image] := by
  obtain ⟨first, c₁, done₁, h⟩ := Compiler.exists_pass (.new config) good
    (fun one => decide (config.elementCeiling < one.1.image.count) &&
      (one.2.compile bad).any fun two : Compilation × Compiler =>
        decide (config.elementCeiling < two.1.image.count) && decide (two.1.stale = ["first"]))
    (by decide +kernel)
  obtain ⟨above₁, h⟩ := (Bool.and_eq_true _ _).mp h
  obtain ⟨second, c₂, done₂, h⟩ := Compiler.exists_pass _ _ _ h
  obtain ⟨above₂, stale⟩ := (Bool.and_eq_true _ _).mp h
  have all := Course.warns (.pass (.pass .new done₁) done₂)
  refine ⟨first, c₁, second, c₂, done₁, done₂, of_decide_eq_true stale, ?_, ?_⟩
  · rw [(all (good, first) (by simp)).1 _ rfl, if_pos (of_decide_eq_true above₁)]
  · rw [(all (bad, second) (by simp)).1 _ rfl, if_pos (of_decide_eq_true above₂)]

open FailedPass Ceiling in
/-- The same image is shipped for a program that is refused, and nobody is warned. -/
theorem ceiling_not_watched :
    ¬ ∀ (config : LowerConfig) (past : List (Program × Compilation)) (c : Compiler),
      Course config past c → ∀ pass ∈ past,
        (overCeiling config pass.2.image ∈ pass.2.diagnostics ↔
          config.elementCeiling < pass.2.image.count) := by
  intro claim
  obtain ⟨first, c₁, done₁, h⟩ := Compiler.exists_pass (.new config) good
    (fun one => (one.2.compile refused).any fun two : Compilation × Compiler =>
      decide (config.elementCeiling < two.1.image.count) && two.1.diagnostics.all
        Diagnostic.isError)
    (by decide +kernel)
  obtain ⟨second, c₂, done₂, h⟩ := Compiler.exists_pass _ _ _ h
  obtain ⟨above, errors⟩ := (Bool.and_eq_true _ _).mp h
  have warned := (claim config _ c₂ (.pass (.pass .new done₁) done₂) (refused, second) (by simp)).2
    (of_decide_eq_true above)
  cases List.all_eq_true.1 errors _ warned

end SkipCode
