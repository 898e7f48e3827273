import ODataQuery.Program.Report
import ODataQuery.Proofs.JsonUniqueness
import ODataQuery.Proofs.JsonWriting

/-! The JSON report of a compiled filter. It follows the grammar, and a JSON text has one value
only, so the report tells the fragment and all parameters of the filter. -/
namespace ODataQuery

open Json

/-- The value that a parameter is written as. -/
def Param.described (p : Param) : Value :=
  .object [(some "kind", .text (some p.kind.name)), (some "value", .text (some p.value))]

/-- The value that a compiled filter is written as. -/
def Compiled.described (c : Compiled) : Value :=
  .object [(some "fragment", .text (some c.fragment)),
    (some "params", .array (c.params.map Param.described))]

theorem Param.described_injective : Function.Injective Param.described := by
  intro p q h
  obtain ⟨k, s⟩ := p
  obtain ⟨k', s'⟩ := q
  simp only [Param.described, Value.object.injEq, List.cons.injEq, Prod.mk.injEq, true_and,
    Value.text.injEq, Option.some.injEq, and_true] at h
  rw [Kind.name_injective h.1, h.2]

theorem Compiled.described_injective : Function.Injective Compiled.described := by
  intro c d h
  obtain ⟨fragment, ps⟩ := c
  obtain ⟨fragment', qs⟩ := d
  simp only [Compiled.described, Value.object.injEq, List.cons.injEq, Prod.mk.injEq, true_and,
    Value.text.injEq, Option.some.injEq, and_true, Value.array.injEq] at h
  rw [h.1, List.map_injective_iff.mpr Param.described_injective h.2]

theorem ofJson_toJson_param (p : Param) : Value.ofJson p.toJson = p.described := by
  rw [Param.toJson, Value.ofJson]
  simp only [Value.ofJsonEntries, Value.ofJson, Kind.toJson]
  rfl

theorem ofJsonItems_toJson (ps : List Param) :
    Value.ofJsonItems (ps.map Param.toJson) = ps.map Param.described := by
  induction ps with
  | nil => rw [List.map_nil, Value.ofJsonItems, List.map_nil]
  | cons p ps ih =>
    rw [List.map_cons, Value.ofJsonItems, ofJson_toJson_param, ih, List.map_cons]

theorem ofJson_toJson (c : Compiled) : Value.ofJson c.toJson = c.described := by
  rw [Compiled.toJson, Value.ofJson]
  simp only [Value.ofJsonEntries, Value.ofJson, ofJsonItems_toJson]
  rfl

theorem document_report (c : Compiled) : c.described.Document (c.report .json) := by
  rw [← ofJson_toJson]
  exact document_pretty c.toJson

/-- The JSON report of a compiled filter is a JSON text of an object that holds its fragment
and its parameters in order, with the names of their kinds, and nothing else. It is the text of
no other value, so no other compiled filter has the same report. -/
theorem json_report_faithful (c : Compiled) :
    c.described.Document (c.report .json) ∧
      (∀ v : Value, v.Document (c.report .json) → v = c.described) ∧
      ∀ d : Compiled, d.report .json = c.report .json → d = c := by
  refine ⟨document_report c, fun v hv => hv.unique (document_report c), fun d hd => ?_⟩
  have hvalue : d.described.Document (c.report .json) := by
    rw [← hd]
    exact document_report d
  exact Compiled.described_injective (hvalue.unique (document_report c))

theorem json_report_faithful_line_in_fragment :
    (∃! v : Value, v.Document
        "\x7b\n  \"fragment\": \"a\\n@p1 = b (string)\",\n  \"params\": []\n\x7d") ∧
      (⟨"a", [⟨.literal .string, "b"⟩]⟩ : Compiled).report .plain =
        (⟨"a\n@p1 = b (string)", []⟩ : Compiled).report .plain ∧
      (⟨"a", [⟨.literal .string, "b"⟩]⟩ : Compiled).report .json ≠
        (⟨"a\n@p1 = b (string)", []⟩ : Compiled).report .json := by
  have hfaithful := json_report_faithful ⟨"a\n@p1 = b (string)", []⟩
  have htext : (⟨"a\n@p1 = b (string)", []⟩ : Compiled).report .json =
      "\x7b\n  \"fragment\": \"a\\n@p1 = b (string)\",\n  \"params\": []\n\x7d" := by
    decide +kernel
  refine ⟨?_, by decide +kernel, fun h => absurd (hfaithful.2.2 _ h) (by decide)⟩
  rw [← htext]
  exact ⟨_, hfaithful.1, hfaithful.2.1⟩

end ODataQuery
