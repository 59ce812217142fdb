/-
# What an inference answers

Whatever the operators, the rules, their weights and the inputs are, an inference that succeeds
answers with a crisp value in the domain of its output, with a profile over the whole domain whose
degrees are degrees, and with every rule for the output at its strength (`Inference.Sound`,
`infer_sound`).

The crisp value is in the domain because no method of defuzzification leaves the bounds of the
points (`Defuzzifier.apply_within`); the rest is read off the formula of an inference
(`Engine.infer_eq`).
-/
import Graded.Proofs.Inference

namespace Graded

/-- What an answer to some inputs has to satisfy, for an output with the variable `v`. -/
structure Inference.Sound (e : Engine ℝ) (inputs : Keyed ℝ) (output : String) (v : Variable ℝ)
    (answer : Inference ℝ) : Prop where
  crisp : answer.crisp ∈ Set.Icc v.low v.high
  length : answer.profile.points.length = e.settings.resolution + 1
  increasing : answer.profile.points.Pairwise (· < ·)
  first : answer.profile.points.head? = some v.low
  last : answer.profile.points.getLast? = some v.high
  lengthDegrees : answer.profile.degrees.length = answer.profile.points.length
  degrees : ∀ mu ∈ answer.profile.degrees, mu ∈ Set.Icc (0 : ℝ) 1
  fired : List.Forall₂
    (fun r f => f.1 = r.id ∧ e.strength r (e.fuzzify inputs) = .ok f.2)
    (e.rules.filter fun r => r.conclusion.variableName == output) answer.fired

namespace Engine

variable {e : Engine ℝ} {inputs : Keyed ℝ} {output : String}

/-- The rules are listed with the strengths at which they fire. -/
theorem forall₂_exactFired {t : TNorm ℝ} {s : TConorm} {i : Implication} {a : Accumulation}
    {z : Defuzzifier} (hu : e.settings.Uses t s i a z) (inputs : Keyed ℝ) (output : String) :
    List.Forall₂ (fun r f => f.1 = r.id ∧ e.strength r (e.fuzzify inputs) = .ok f.2)
      (e.rulesFor output) (e.exactFired t s inputs output) := by
  rw [exactFired, List.forall₂_map_right_iff, List.forall₂_same]
  exact fun r _ => ⟨rfl, strength_eq hu (e.inUnit_fuzzify inputs) r⟩

/-- **Every answer is sound.** -/
theorem infer_sound (h : e.settings.Catalogued) {n : Noted (Inference ℝ)}
    (hn : e.infer inputs output = .ok n) :
    ∃ v, e.find? output = some v ∧ n.value.Sound e inputs output v := by
  obtain ⟨t, s, i, a, z, hu⟩ := h.uses
  obtain ⟨v, hv, hc⟩ := infer_inv hu hn
  obtain ⟨c, -, hin, hok⟩ := infer_eq hu hv inputs hc
  rw [hok] at hn
  cases hn
  refine ⟨v, hv, ?_⟩
  exact
    { crisp := hin
      length := v.length_points _
      increasing := Scalar.grid_pairwise v.proper e.settings.positive
      first := Scalar.head?_grid v.proper e.settings.positive
      last := Scalar.getLast?_grid e.settings.positive
      lengthDegrees := List.length_map _
      degrees := by
        intro mu hmu
        obtain ⟨x, -, rfl⟩ := List.mem_map.mp hmu
        exact Scalar.clamp_mem _
      fired := forall₂_exactFired hu inputs output }

/-- Two rules of weights 1 and 3 answer about the level, from an input below its domain. -/
theorem infer_sound_level :
    ∃ (e : Engine ℝ) (n : Noted (Inference ℝ)),
      e.rules = [Level.keepsLow "once" 1, Level.keepsLow "thrice" 3] ∧
      e.settings.Catalogued ∧ e.infer [("level", -2)] "level" = .ok n ∧
      n.value.Sound e [("level", -2)] "level" Level.level := by
  have accepted : ∀ r ∈ [Level.keepsLow "once" 1, Level.keepsLow "thrice" 3],
      r.fault? = none := by
    intro r hr
    rcases List.mem_pair.mp hr with rfl | rfl
    · exact Level.fault?_keepsLow "once" zero_le_one
    · exact Level.fault?_keepsLow "thrice" (by norm_num)
  have hc := Settings.catalogued_regular (t := .product) ⟨("product", .product), by
    simp [TNorm.catalogue], rfl⟩ .probabilisticSum .larsen .probabilisticSum .bisector
    (n := 4) (by decide)
  set e := Level.engine _ _ accepted
  obtain ⟨t, s, i, a, z, hu⟩ := hc.uses
  obtain ⟨c, -, -, hn⟩ := infer_eq (e := e) hu (Level.find?_engine accepted) [("level", -2)]
    (concludes_of_sets (Level.isSome_set? (by simp [e, Level.engine, Level.keepsLow]) _))
  obtain ⟨v, hv, hs⟩ := infer_sound hc hn
  cases (Level.find?_engine accepted).symm.trans hv
  exact ⟨e, _, rfl, hc, hn, hs⟩

end Engine
end Graded
