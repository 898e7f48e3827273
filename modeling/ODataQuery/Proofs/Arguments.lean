import ODataQuery.Program.Command

/-! How single options are read from the arguments, and the requests that come of them. -/
namespace ODataQuery

/-- A numeral in decimal digits is read as the number it stands for. -/
theorem readWord?_toString {n : Nat} (hn : n < UInt64.size) :
    readWord? (toString n) = some (UInt64.ofNat n) := by
  have hdigits : ∀ c ∈ Nat.toDigits 10 n, c.isDigit = true := fun c hc =>
    Nat.isDigit_of_mem_toDigits (by decide) (by decide) hc
  have htext : (toString n).toList = Nat.toDigits 10 n := by simp
  have hall : (Nat.toDigits 10 n).all Char.isDigit = true := List.all_eq_true.mpr hdigits
  rw [readWord?, htext]
  split
  · rename_i cs hcs
    -- a numeral does not begin with a sign
    have hplus : '+'.isDigit = true := hdigits '+' (hcs ▸ List.mem_cons_self)
    cases hplus
  · rw [Nat.ofDigitChars_ten_toDigits, if_pos ⟨Nat.toDigits_ne_nil, hall, hn⟩]

theorem looksLikeOption_toString (n : Nat) : looksLikeOption (toString n) = false := by
  have htext : (toString n).toList = Nat.toDigits 10 n := by simp
  rw [looksLikeOption, htext]
  split
  · rename_i hcs
    have hdash : '-'.isDigit = true :=
      Nat.isDigit_of_mem_toDigits (by decide) (by decide) (hcs ▸ List.mem_cons_self)
    cases hdash
  · rfl

namespace Setting

theorem readAll_flag {name : String} {s : Setting} (hflag : ofFlag? name = some s)
    (hname : name ≠ "--") (rest : List String) :
    readAll (name :: rest) = (readAll rest).map (s :: ·) := by
  rw [readAll.eq_def]
  dsimp only
  rw [if_neg fun h => hname h.1, hflag]

theorem readAll_value {name : String} (hflag : ofFlag? name = none)
    (hassign : splitAssignment? name = none) (hname : name ≠ "--") (value : String)
    (rest : List String) :
    readAll (name :: value :: rest) =
      if looksLikeOption value then none
      else (ofValue? name value).bind fun s => (readAll rest).map (s :: ·) := by
  rw [readAll.eq_def]
  dsimp only
  rw [if_neg fun h => hname h.1, hflag, hassign]
  rfl

end Setting

/-- The arguments that ask for the tree at a path to be compiled, with the options that are
no limit. -/
def compileArguments (path : String) (bind json : Bool) : List String :=
  ["compile", "--tree", path] ++ (if bind then ["--bind"] else []) ++
    if json then ["--json"] else []

/-- The request that these arguments make. -/
def compileRequest (path : String) (bind json : Bool) (limit : Option UInt64) :
    CompileRequest where
  path := path
  options := ⟨if bind then .bind else .inline, limit⟩
  format := if json then .json else .plain

/-- The settings that make the request. -/
def compileSettings (path : String) (bind json : Bool) (limit : Option UInt64) :
    List Setting :=
  .tree path :: ((if bind then [.bind] else []) ++ (if json then [.json] else []) ++
    (limit.map Setting.maxDepth).toList)

theorem ofSettings?_compile (path : String) (bind json : Bool) (limit : Option UInt64) :
    CompileRequest.ofSettings? (compileSettings path bind json limit) =
      some (compileRequest path bind json limit) := by
  cases bind <;> cases json <;> cases limit <;> rfl

theorem readAll_compile (path : String) (bind json : Bool) {limit : Option UInt64}
    {rest : List String}
    (hrest : Setting.readAll rest = some (limit.map Setting.maxDepth).toList) :
    Setting.readAll ((compileArguments path bind json).tail ++ rest) =
      if looksLikeOption path then none
      else some (compileSettings path bind json limit) := by
  have htree (args : List String) : Setting.readAll ("--tree" :: path :: args) =
      if looksLikeOption path then none else (Setting.readAll args).map (.tree path :: ·) :=
    Setting.readAll_value rfl rfl (by decide) path args
  have hbind (args : List String) : Setting.readAll ("--bind" :: args) =
      (Setting.readAll args).map (.bind :: ·) := Setting.readAll_flag rfl (by decide) args
  have hjson (args : List String) : Setting.readAll ("--json" :: args) =
      (Setting.readAll args).map (.json :: ·) := Setting.readAll_flag rfl (by decide) args
  cases bind <;> cases json <;>
    simp [compileArguments, compileSettings, htree, hbind, hjson, hrest]

theorem ofArguments_of_request {rest : List String} {request : CompileRequest}
    (h : (Setting.readAll rest).bind CompileRequest.ofSettings? = some request) :
    Command.ofArguments ("compile" :: rest) = .ok (.compile request) := by
  rw [Command.ofArguments, if_pos rfl, h]

theorem ofArguments_of_no_request {rest : List String}
    (h : (Setting.readAll rest).bind CompileRequest.ofSettings? = none) :
    Command.ofArguments ("compile" :: rest) =
      .error (.onOptions Setting.distinct rest) := by
  rw [Command.ofArguments, if_pos rfl, h]

theorem ofArguments_compile (path : String) (bind json : Bool) (limit : Option UInt64)
    {rest : List String}
    (hrest : Setting.readAll rest = some (limit.map Setting.maxDepth).toList) :
    Command.ofArguments (compileArguments path bind json ++ rest) =
      if looksLikeOption path then
        .error (.onOptions Setting.distinct ((compileArguments path bind json).tail ++ rest))
      else .ok (.compile (compileRequest path bind json limit)) := by
  have hread := readAll_compile path bind json hrest
  have hsplit : compileArguments path bind json ++ rest =
      "compile" :: ((compileArguments path bind json).tail ++ rest) := rfl
  rw [hsplit]
  by_cases hpath : looksLikeOption path = true
  · rw [if_pos hpath] at hread ⊢
    exact ofArguments_of_no_request (by rw [hread, Option.bind_none])
  · rw [if_neg hpath] at hread ⊢
    exact ofArguments_of_request (by rw [hread, Option.bind_some, ofSettings?_compile])

/-- A limit is read as the last two arguments. -/
theorem readAll_maxDepth {n : Nat} (hn : n < UInt64.size) :
    Setting.readAll ["--max-depth", toString n] = some [.maxDepth (UInt64.ofNat n)] := by
  have hvalue : Setting.ofValue? "--max-depth" (toString n) =
      some (.maxDepth (UInt64.ofNat n)) := by
    change (readWord? (toString n)).map Setting.maxDepth = _
    rw [readWord?_toString hn]
    rfl
  rw [Setting.readAll_value rfl rfl (by decide), looksLikeOption_toString, hvalue]
  rfl

end ODataQuery
