import Mathlib.Data.List.Forall2
import Groom.Tool

/-! Argument templates. A tool with a place for the target has other arguments for every other
target; without such a place its arguments are always the same. -/
namespace Groom

/-- What a place of a template may hold when a target is worked on: a literal stays as it is, even
if it reads like the target. -/
inductive Arg.Holds (target : Path) : Arg → Bytes → Prop where
  | literal (bytes : Bytes) : Holds target (.literal bytes) bytes
  | target : Holds target .target target.bytes

theorem Arg.holds_iff {target : Path} {arg : Arg} {bytes : Bytes} :
    arg.Holds target bytes ↔ arg.fill target = bytes := by
  constructor
  · intro h
    cases h <;> rfl
  · rintro rfl
    cases arg with
    | literal bytes => exact .literal bytes
    | target => exact .target

/-- A template is filled place by place, and in one way only. -/
theorem Arg.forall₂_holds_iff {target : Path} {template : List Arg} {filled : List Bytes} :
    List.Forall₂ (Arg.Holds target) template filled ↔
      filled = template.map (·.fill target) := by
  induction template generalizing filled with
  | nil => rw [List.forall₂_nil_left_iff, List.map_nil]
  | cons arg rest ih =>
    cases filled with
    | nil => simp
    | cons bytes more =>
      rw [List.forall₂_cons, holds_iff, ih, List.map_cons, List.cons_eq_cons]
      exact and_congr_left' eq_comm

/-- Two targets fill a template alike only if it has no place for them, or if they are the same. -/
theorem Arg.map_fill_eq_iff {template : List Arg} {p q : Path} :
    template.map (·.fill p) = template.map (·.fill q) ↔ (.target ∈ template → p = q) := by
  induction template with
  | nil => simp
  | cons arg rest ih =>
    rw [List.map_cons, List.map_cons, List.cons_eq_cons, ih]
    cases arg with
    | literal bytes => simp [fill]
    | target =>
      -- this place alone tells the two targets apart
      have hplace : fill p .target = fill q .target ↔ p = q := by
        cases p
        cases q
        simp [fill]
      rw [hplace]
      simp +contextual

namespace Tool

variable {t : Tool}

theorem isPerFile_iff : t.isPerFile = true ↔ .target ∈ t.invocation := by
  simp [isPerFile]

theorem invocationFor_eq_iff {p q : Path} :
    t.invocationFor p = t.invocationFor q ↔ (t.isPerFile = true → p = q) := by
  rw [isPerFile_iff, ← Arg.map_fill_eq_iff]
  exact List.append_right_inj t.base

/-- The arguments of the real work are the leading ones and the filled template. They are the same
for all targets exactly if the tool has no place for the target, and different for different targets
exactly if it has one. -/
theorem isPerFile_iff_depends_on_target (t : Tool) :
    (∀ target args, t.invocationFor target = args ↔
      ∃ filled, List.Forall₂ (Arg.Holds target) t.invocation filled ∧ args = t.base ++ filled) ∧
    (t.isPerFile = false ↔ ∀ p q, t.invocationFor p = t.invocationFor q) ∧
    (t.isPerFile = true ↔ Function.Injective t.invocationFor) := by
  have hpaths : (⟨[]⟩ : Path) ≠ ⟨[Bytes.slash]⟩ := by decide
  refine ⟨fun target args => ?_, ?_, ?_⟩
  · simp only [Arg.forall₂_holds_iff, exists_eq_left]
    exact eq_comm
  · constructor
    · intro hnone p q
      rw [invocationFor_eq_iff, hnone]
      exact nofun
    · intro hsame
      rw [Bool.eq_false_iff]
      exact fun hplace => hpaths (invocationFor_eq_iff.mp (hsame _ _) hplace)
  · constructor
    · intro hplace p q hsame
      exact invocationFor_eq_iff.mp hsame hplace
    · intro hinjective
      by_contra hnone
      exact hpaths (hinjective (invocationFor_eq_iff.mpr fun hplace => absurd hplace hnone))

end Tool

end Groom
