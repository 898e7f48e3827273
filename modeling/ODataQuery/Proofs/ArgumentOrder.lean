import ODataQuery.Program.Run
import ODataQuery.Proofs.ArgumentForms

/-! Order and spelling of the options. A command line is a list of written options; each of them
has its value as an argument of its own or behind an equals sign, and a number can be written in
many ways. All command lines that give the same settings make the program do the same, and one
that gives an option twice is a usage error. -/
namespace ODataQuery

/-- A numeral for a 64-bit word: decimal digits, perhaps with zeros in front of them or behind a
plus sign. -/
def IsNumeralOf (n : UInt64) (s : String) : Prop :=
  ∃ ds : List Char, ds ≠ [] ∧ (∀ c ∈ ds, c.isDigit = true) ∧
    Nat.ofDigitChars 10 ds 0 = n.toNat ∧ (s.toList = ds ∨ s.toList = '+' :: ds)

/-- An option as it is written. Its value, if it takes one, is the next argument or is joined to
the name by an equals sign. -/
structure WrittenOption where
  name : String
  value : Option String
  joined : Bool

namespace WrittenOption

def arguments (o : WrittenOption) : List String :=
  match o.value with
  | none => [o.name]
  | some value => if o.joined then [o.name ++ "=" ++ value] else [o.name, value]

/-- The written option gives the setting, in either spelling if it has a value. -/
inductive Gives : WrittenOption → Setting → Prop
  | bind (joined : Bool) : Gives ⟨"--bind", none, joined⟩ .bind
  | json (joined : Bool) : Gives ⟨"--json", none, joined⟩ .json
  | tree (path : String) (joined : Bool) : Gives ⟨"--tree", some path, joined⟩ (.tree path)
  | maxDepth {limit : UInt64} {numeral : String} (h : IsNumeralOf limit numeral)
      (joined : Bool) : Gives ⟨"--max-depth", some numeral, joined⟩ (.maxDepth limit)

/-- Both write the same option, in whatever spelling and with whatever value. -/
def SameOption (o o' : WrittenOption) : Prop :=
  o.name = o'.name ∧ o.value.isSome = o'.value.isSome

end WrittenOption

/-- A written option with the setting that it gives. -/
structure GivenOption extends WrittenOption where
  setting : Setting
  gives : toWrittenOption.Gives setting

/-- The arguments of a compilation with the given options. -/
def commandLine (options : List WrittenOption) : List String :=
  "compile" :: options.flatMap WrittenOption.arguments

/-- What is left of a numeral without its plus sign. -/
def unsigned : List Char → List Char
  | '+' :: cs => cs
  | cs => cs

theorem readWord?_eq (s : String) :
    readWord? s =
      if unsigned s.toList ≠ [] ∧ (unsigned s.toList).all Char.isDigit ∧
          Nat.ofDigitChars 10 (unsigned s.toList) 0 < UInt64.size then
        some (UInt64.ofNat (Nat.ofDigitChars 10 (unsigned s.toList) 0))
      else none := rfl

theorem eq_or_eq_unsigned (cs : List Char) : cs = unsigned cs ∨ cs = '+' :: unsigned cs := by
  unfold unsigned
  split
  · exact .inr rfl
  · exact .inl rfl

theorem unsigned_of_digits {ds : List Char} (hdigits : ∀ c ∈ ds, c.isDigit = true) :
    unsigned ds = ds := by
  unfold unsigned
  split
  · -- a sign is no digit
    have hplus := hdigits '+' List.mem_cons_self
    cases hplus
  · rfl

/-- A word is read from exactly its numerals. -/
theorem readWord?_eq_some_iff {s : String} {n : UInt64} :
    readWord? s = some n ↔ IsNumeralOf n s := by
  rw [readWord?_eq]
  constructor
  · intro h
    split at h
    · rename_i hword
      cases h
      refine ⟨_, hword.1, List.all_eq_true.mp hword.2.1, ?_, eq_or_eq_unsigned s.toList⟩
      rw [UInt64.toNat_ofNat_of_lt' hword.2.2]
    · cases h
  · rintro ⟨ds, hne, hdigits, hvalue, hs⟩
    have hds : unsigned s.toList = ds := by
      rcases hs with hs | hs
      · rw [hs, unsigned_of_digits hdigits]
      · rw [hs]
        rfl
    have hsize : n.toNat < UInt64.size := n.toNat_lt
    rw [hds, hvalue, UInt64.ofNat_toNat, if_pos ⟨hne, List.all_eq_true.mpr hdigits, hsize⟩]

namespace WrittenOption

/-- What gives a setting is one of its spellings, if a path is not taken for an option. -/
theorem Gives.spelled {o : WrittenOption} {s : Setting} (h : o.Gives s)
    (hpath : ∀ path, s = .tree path → path.toList.head? ≠ some '-') :
    Setting.Spelled s o.arguments := by
  cases h with
  | bind => exact .bind
  | json => exact .json
  | tree path joined =>
    cases joined with
    | true => exact .treeJoined path
    | false =>
      apply Setting.Spelled.tree
      unfold looksLikeOption
      split
      · rename_i hdash
        have hhead := hpath path rfl
        rw [hdash] at hhead
        exact absurd rfl hhead
      · rfl
  | maxDepth hnumeral joined =>
    have hreads := readWord?_eq_some_iff.mpr hnumeral
    cases joined with
    | true => exact .maxDepthJoined hreads
    | false => exact .maxDepth hreads

end WrittenOption

namespace GivenOption

def writtenAll (given : List GivenOption) : List WrittenOption :=
  given.map GivenOption.toWrittenOption

def settings (given : List GivenOption) : List Setting := given.map GivenOption.setting

/-- Options are read one after the other, whatever follows them. -/
theorem readAll_append {given : List GivenOption}
    (h : ∀ o ∈ given, Setting.Spelled o.setting o.arguments) (rest : List String) :
    Setting.readAll ((writtenAll given).flatMap WrittenOption.arguments ++ rest) =
      (Setting.readAll rest).map (settings given ++ ·) := by
  induction given with
  | nil => simp [writtenAll, settings]
  | cons o given ih =>
    have hfirst := h o List.mem_cons_self
    have hrest := ih fun o ho => h o (List.mem_cons_of_mem _ ho)
    change Setting.readAll
      (o.arguments ++ (writtenAll given).flatMap WrittenOption.arguments ++ rest) = _
    rw [List.append_assoc, Setting.readAll_spelled hfirst, hrest, Option.map_map]
    rfl

theorem readAll_writtenAll {given : List GivenOption}
    (h : ∀ o ∈ given, Setting.Spelled o.setting o.arguments) :
    Setting.readAll ((writtenAll given).flatMap WrittenOption.arguments) =
      some (settings given) := by
  have hread := readAll_append h []
  rwa [List.append_nil, Setting.readAll, Option.map_some, List.append_nil] at hread

end GivenOption

/-- In front of the others the arguments are not understood, or they give a setting of the
option. -/
def ReadAsOption (name : String) (arguments rest : List String) : Prop :=
  Setting.readAll (arguments ++ rest) = none ∨
    ∃ s : Setting, s.option = name ∧
      Setting.readAll (arguments ++ rest) = (Setting.readAll rest).map (s :: ·)

theorem option_of_ofValue? {name value : String} {s : Setting}
    (h : Setting.ofValue? name value = some s) : s.option = name := by
  rcases Setting.ofValue?_eq_some_iff.mp h with ⟨rfl, rfl⟩ | ⟨rfl, n, -, rfl⟩
  · rfl
  · rfl

/-- Whatever the value of an option is, nothing but a setting of this option comes of it. -/
theorem readAsOption_of_value {name : String} (hflag : Setting.ofFlag? name = none)
    (hsign : '=' ∉ name.toList) (hname : name ≠ "--") (value : String) (joined : Bool)
    (rest : List String) :
    ReadAsOption name (WrittenOption.arguments ⟨name, some value, joined⟩) rest := by
  have hbind {arguments : List String} (h : Setting.readAll (arguments ++ rest) =
      (Setting.ofValue? name value).bind fun s => (Setting.readAll rest).map (s :: ·)) :
      ReadAsOption name arguments rest := by
    cases hvalue : Setting.ofValue? name value with
    | none =>
      rw [hvalue] at h
      exact .inl h
    | some s =>
      rw [hvalue] at h
      exact .inr ⟨s, option_of_ofValue? hvalue, h⟩
  cases joined with
  | true => exact hbind (Setting.readAll_assignment hsign value rest)
  | false =>
    have hassign : splitAssignment? name = none := by
      apply Option.eq_none_iff_forall_ne_some.mpr
      rintro ⟨left, right⟩ hsplit
      apply hsign
      rw [(splitAssignment?_eq_some_iff.mp hsplit).1]
      simp
    have hread := Setting.readAll_value hflag hassign hname value rest
    split at hread
    · exact .inl hread
    · exact hbind hread

/-- The same holds of an option that is written once more. -/
theorem readAsOption_again {o again : WrittenOption} {s : Setting} (h : o.Gives s)
    (hagain : again.SameOption o) (rest : List String) :
    ReadAsOption s.option again.arguments rest := by
  obtain ⟨name, value, joined⟩ := again
  obtain ⟨hname, hvalue⟩ := hagain
  dsimp only at hname hvalue
  subst hname
  cases h with
  | bind =>
    obtain rfl : value = none := Option.not_isSome_iff_eq_none.mp (Bool.eq_false_iff.mp hvalue)
    exact .inr ⟨.bind, rfl, Setting.readAll_spelled .bind rest⟩
  | json =>
    obtain rfl : value = none := Option.not_isSome_iff_eq_none.mp (Bool.eq_false_iff.mp hvalue)
    exact .inr ⟨.json, rfl, Setting.readAll_spelled .json rest⟩
  | tree =>
    obtain ⟨other, rfl⟩ := Option.isSome_iff_exists.mp hvalue
    exact @readAsOption_of_value "--tree" rfl (by decide) (by decide) other joined rest
  | maxDepth =>
    obtain ⟨other, rfl⟩ := Option.isSome_iff_exists.mp hvalue
    exact @readAsOption_of_value "--max-depth" rfl (by decide) (by decide) other joined rest

namespace CompileRequest

theorem ofSettings?_of_not_distinct {settings : List Setting}
    (h : Setting.distinct settings = false) : ofSettings? settings = none := by
  rw [ofSettings?]
  cases settings.findSome? Setting.path? with
  | none => rfl
  | some path => simp [h]

theorem distinct_of_ofSettings? {settings : List Setting} {request : CompileRequest}
    (h : ofSettings? settings = some request) : Setting.distinct settings = true := by
  by_contra hnot
  rw [ofSettings?_of_not_distinct (Bool.eq_false_iff.mpr hnot)] at h
  cases h

/-- Settings that are distinct and name a file make a request. -/
theorem exists_ofSettings? {settings : List Setting} {path : String}
    (hdistinct : Setting.distinct settings = true) (hpath : .tree path ∈ settings) :
    ∃ request, ofSettings? settings = some request := by
  have htree : ∀ s path, Setting.path? s = some path ↔ s = .tree path := by
    intro s path
    cases s <;> simp [Setting.path?]
  have hfound : settings.findSome? Setting.path? = some path :=
    (findSome?_eq_some_iff_mem hdistinct htree (fun _ _ => rfl) path).mpr hpath
  rw [ofSettings?, hfound]
  exact ⟨_, if_pos hdistinct⟩

theorem Matches.perm {settings settings' : List Setting} {request : CompileRequest}
    (h : request.Matches settings) (hperm : settings.Perm settings') :
    request.Matches settings' where
  path := by simpa only [hperm.mem_iff] using h.path
  literals := by simpa only [hperm.mem_iff] using h.literals
  maxDepth := by simpa only [hperm.mem_iff] using h.maxDepth
  format := by simpa only [hperm.mem_iff] using h.format

/-- The order of the settings does not matter for the request: what it says is only which of
them there are. -/
theorem ofSettings?_perm {settings settings' : List Setting} {request : CompileRequest}
    (h : ofSettings? settings = some request) (hperm : settings.Perm settings') :
    ofSettings? settings' = some request := by
  have hmatches := (matches_of_ofSettings? h).perm hperm
  have hdistinct : Setting.distinct settings' = true := by
    have hnodup := of_decide_eq_true (distinct_of_ofSettings? h)
    exact decide_eq_true ((hperm.map Setting.option).nodup_iff.mp hnodup)
  obtain ⟨other, hother⟩ := exists_ofSettings? hdistinct ((hmatches.path request.path).mp rfl)
  rw [hother, (matches_of_ofSettings? hother).unique hmatches]

end CompileRequest

/-- Settings of which one has an option that was given before make no request. -/
theorem ofSettings?_of_again {before after : List Setting} {s s' : Setting}
    (h : s ∈ before ++ after) (hoption : s'.option = s.option) :
    CompileRequest.ofSettings? (before ++ s' :: after) = none := by
  apply CompileRequest.ofSettings?_of_not_distinct
  apply decide_eq_false
  rw [(List.perm_middle.map Setting.option).nodup_iff, List.map_cons, List.nodup_cons, hoption]
  intro hnodup
  exact hnodup.1 (List.mem_map_of_mem h)

/-- The path is the only one of the settings that could be taken for an option. -/
theorem spelled_of_perm {path : String} (hpath : path.toList.head? ≠ some '-') {bind json : Bool}
    {limit : Option UInt64} {given : List GivenOption}
    (hgiven : (GivenOption.settings given).Perm (compileSettings path bind json limit)) :
    ∀ o ∈ given, Setting.Spelled o.setting o.arguments := by
  intro o ho
  apply o.gives.spelled
  intro other hother
  have hmem : Setting.tree other ∈ compileSettings path bind json limit :=
    hgiven.mem_iff.mp (hother ▸ List.mem_map_of_mem ho)
  obtain rfl : other = path := by
    cases bind <;> cases json <;> cases limit <;> simpa [compileSettings] using hmem
  exact hpath

namespace Advice

theorem onOptions_of_forall (accepts : List Setting → Bool) {arguments : List String}
    (h : ∀ argument ∈ arguments, asksHelp argument = false) :
    onOptions accepts arguments = .usageError := by
  have hall : arguments.takeWhile (fun argument => !asksHelp argument) = arguments :=
    List.takeWhile_eq_self_iff.mpr fun argument hmem => by rw [h argument hmem]; rfl
  rw [onOptions, hall]
  exact if_neg fun hhelp => hhelp.1 rfl

/-- Help that is asked for after something that cannot be read is not given. -/
theorem onOptions_of_unread (accepts : List Setting → Bool) {before : List String}
    {argument : String} (hbefore : ∀ a ∈ before, asksHelp a = false)
    (hasks : asksHelp argument = true) (hread : Setting.readAll before = none)
    (rest : List String) : onOptions accepts (before ++ argument :: rest) = .usageError := by
  have hquiet : ∀ a ∈ before, (!asksHelp a) = true := fun a ha => by rw [hbefore a ha]; rfl
  have hfirst : (before ++ argument :: rest).takeWhile (fun a => !asksHelp a) = before := by
    rw [List.takeWhile_append_of_pos hquiet, List.takeWhile_cons_of_neg (by simp [hasks]),
      List.append_nil]
  rw [onOptions, hfirst, hread]
  exact if_neg fun hhelp => absurd hhelp.2.2 Bool.false_ne_true

end Advice

/-- An option that is written once more asks for help only by a value that stands by itself,
and then the value is missing. -/
theorem asksHelp_again {o again : WrittenOption} {s : Setting} (h : o.Gives s)
    (hagain : again.SameOption o) :
    (∀ argument ∈ again.arguments, Advice.asksHelp argument = false) ∨
      ∃ value, again.arguments = [again.name, value] ∧ Advice.asksHelp value = true ∧
        Advice.asksHelp again.name = false ∧ Setting.readAll [again.name] = none := by
  obtain ⟨name, value, joined⟩ := again
  obtain ⟨hname, hvalue⟩ := hagain
  dsimp only at hname hvalue
  subst hname
  -- all names begin with two dashes and another letter than the one that asks for help
  have hthird : ∃ c cs, o.name.toList = '-' :: '-' :: c :: cs ∧ c ≠ 'h' := by
    cases h <;> simp
  obtain ⟨c, cs, hchars, hc⟩ := hthird
  have hquiet := asksHelp_of_third hchars hc
  cases value with
  | none => exact .inl (List.forall_mem_singleton.mpr hquiet)
  | some value =>
    cases joined with
    | true =>
      have hjoined : (o.name ++ "=" ++ value).toList =
          '-' :: '-' :: c :: (cs ++ '=' :: value.toList) := by simp [hchars]
      exact .inl (List.forall_mem_singleton.mpr (asksHelp_of_third hjoined hc))
    | false =>
      cases hasks : Advice.asksHelp value with
      | false =>
        exact .inl (List.forall_mem_cons.mpr ⟨hquiet, List.forall_mem_singleton.mpr hasks⟩)
      | true =>
        refine .inr ⟨value, rfl, hasks, hquiet, ?_⟩
        cases h with
        | bind => cases hvalue
        | json => cases hvalue
        | tree =>
          change Setting.readAll ["--tree"] = none
          decide +kernel
        | maxDepth =>
          change Setting.readAll ["--max-depth"] = none
          decide +kernel

namespace GivenOption

theorem asksHelp_writtenAll {given : List GivenOption}
    (h : ∀ o ∈ given, Setting.Spelled o.setting o.arguments) :
    ∀ argument ∈ (writtenAll given).flatMap WrittenOption.arguments,
      Advice.asksHelp argument = false := by
  intro argument hmem
  obtain ⟨written, hwritten, hargument⟩ := List.mem_flatMap.mp hmem
  obtain ⟨o, ho, rfl⟩ := List.mem_map.mp hwritten
  exact (h o ho).asksHelp argument hargument

/-- Options with one of them written once more do not amount to a request for help. -/
theorem onOptions_again {before after : List GivenOption} {o : GivenOption}
    {again : WrittenOption}
    (h : ∀ o ∈ before ++ after, Setting.Spelled o.setting o.arguments)
    (hagain : again.SameOption o.toWrittenOption) (accepts : List Setting → Bool) :
    Advice.onOptions accepts
      ((writtenAll before ++ again :: writtenAll after).flatMap WrittenOption.arguments) =
        .usageError := by
  have hbefore : ∀ o ∈ before, Setting.Spelled o.setting o.arguments :=
    fun o ho => h o (List.mem_append_left after ho)
  have hquiet := asksHelp_writtenAll hbefore
  have hquiet' := asksHelp_writtenAll fun o ho => h o (List.mem_append_right before ho)
  rw [List.flatMap_append, List.flatMap_cons]
  rcases asksHelp_again o.gives hagain with hnone | ⟨value, harguments, hasks, hname, hread⟩
  · apply Advice.onOptions_of_forall
    exact List.forall_mem_append.mpr ⟨hquiet, List.forall_mem_append.mpr ⟨hnone, hquiet'⟩⟩
  · -- the value is taken for the request, and the name is left without one
    have hunread : Setting.readAll
        ((writtenAll before).flatMap WrittenOption.arguments ++ [again.name]) = none := by
      rw [readAll_append hbefore, hread, Option.map_none]
    have hall : ∀ argument ∈ (writtenAll before).flatMap WrittenOption.arguments ++ [again.name],
        Advice.asksHelp argument = false :=
      List.forall_mem_append.mpr ⟨hquiet, List.forall_mem_singleton.mpr hname⟩
    have hsplit : (writtenAll before).flatMap WrittenOption.arguments ++
        (again.arguments ++ (writtenAll after).flatMap WrittenOption.arguments) =
        (writtenAll before).flatMap WrittenOption.arguments ++ [again.name] ++
          value :: (writtenAll after).flatMap WrittenOption.arguments := by
      rw [harguments, List.append_assoc]
      rfl
    rw [hsplit]
    exact Advice.onOptions_of_unread accepts hall hasks hunread _

/-- Options with one of them written once more make no request. -/
theorem no_request_again {before after : List GivenOption} {o : GivenOption}
    {again : WrittenOption}
    (h : ∀ o ∈ before ++ after, Setting.Spelled o.setting o.arguments)
    (ho : o ∈ before ++ after) (hagain : again.SameOption o.toWrittenOption) :
    (Setting.readAll ((writtenAll before ++ again :: writtenAll after).flatMap
      WrittenOption.arguments)).bind CompileRequest.ofSettings? = none := by
  have hbefore := readAll_append fun o ho => h o (List.mem_append_left after ho)
  have hafter := readAll_writtenAll fun o ho => h o (List.mem_append_right before ho)
  have hsetting : o.setting ∈ settings before ++ settings after := by
    rw [settings, settings, ← List.map_append]
    exact List.mem_map_of_mem ho
  rw [List.flatMap_append, List.flatMap_cons, hbefore]
  rcases readAsOption_again o.gives hagain
    ((writtenAll after).flatMap WrittenOption.arguments) with hnone | ⟨s, hoption, hsome⟩
  · rw [hnone]
    rfl
  · -- the option is read, but now it is there twice
    rw [hsome, hafter, Option.map_some, Option.map_some, Option.bind_some,
      ofSettings?_of_again hsetting hoption]

end GivenOption

/-- All command lines that give the same settings, in any order and spelling, make the program
do the same. One that has an option once more, between the others and with any value, is a
usage error. -/
theorem order_and_spelling_do_not_matter {path : String} (hpath : path.toList.head? ≠ some '-')
    {bind json : Bool} {limit : Option UInt64} {given : List GivenOption}
    (hgiven : (GivenOption.settings given).Perm (compileSettings path bind json limit))
    (read : FileReader) :
    respond read (commandLine (GivenOption.writtenAll given)) =
        .ok ((compileRequest path bind json limit).run read) ∧
      ∀ before after again, given = before ++ after →
        (∃ o ∈ given, again.SameOption o.toWrittenOption) →
          respond read (commandLine
            (GivenOption.writtenAll before ++ again :: GivenOption.writtenAll after)) =
              .error .usageError := by
  have hspelled := spelled_of_perm hpath hgiven
  constructor
  · have hrequest : CompileRequest.ofSettings? (GivenOption.settings given) =
        some (compileRequest path bind json limit) :=
      CompileRequest.ofSettings?_perm (ofSettings?_compile path bind json limit) hgiven.symm
    have hread : (Setting.readAll ((GivenOption.writtenAll given).flatMap
        WrittenOption.arguments)).bind CompileRequest.ofSettings? =
        some (compileRequest path bind json limit) := by
      rw [GivenOption.readAll_writtenAll hspelled, Option.bind_some, hrequest]
    rw [respond, commandLine, ofArguments_of_request hread]
    rfl
  · rintro before after again rfl ⟨o, ho, hagain⟩
    rw [respond, commandLine,
      ofArguments_of_no_request (GivenOption.no_request_again hspelled ho hagain),
      GivenOption.onOptions_again hspelled hagain]
    rfl

theorem order_and_spelling_do_not_matter_plus_sign :
    respond (fun _ => .error .notFound)
        ["compile", "--max-depth=+007", "--tree", "a=b", "--json"] =
      .ok ((compileRequest "a=b" false true (some 7)).run fun _ => .error .notFound) ∧
    respond (fun _ => .error .notFound)
      ["compile", "--max-depth=+007", "--tree", "-h", "--tree", "a=b", "--json"] =
        .error .usageError := by
  have hseven : IsNumeralOf 7 "+007" :=
    ⟨['0', '0', '7'], by decide, by simp, by decide, .inr (by decide)⟩
  let limit : GivenOption :=
    ⟨⟨"--max-depth", some "+007", true⟩, .maxDepth 7, .maxDepth hseven true⟩
  let tree : GivenOption := ⟨⟨"--tree", some "a=b", false⟩, .tree "a=b", .tree "a=b" false⟩
  let json : GivenOption := ⟨⟨"--json", none, false⟩, .json, .json false⟩
  have hgiven : (GivenOption.settings [limit, tree, json]).Perm
      (compileSettings "a=b" false true (some 7)) := @List.perm_append_comm _ [_] [_, _]
  obtain ⟨hrun, hagain⟩ := order_and_spelling_do_not_matter (by decide) hgiven
    fun _ => .error .notFound
  have htwice := hagain [limit] [tree, json] ⟨"--tree", some "-h", false⟩ rfl
    ⟨tree, by simp, rfl, rfl⟩
  have honce : commandLine [⟨"--max-depth", some "+007", true⟩, ⟨"--tree", some "a=b", false⟩,
      ⟨"--json", none, false⟩] =
      ["compile", "--max-depth=+007", "--tree", "a=b", "--json"] := by decide +kernel
  have hmore : commandLine [⟨"--max-depth", some "+007", true⟩, ⟨"--tree", some "-h", false⟩,
      ⟨"--tree", some "a=b", false⟩, ⟨"--json", none, false⟩] =
      ["compile", "--max-depth=+007", "--tree", "-h", "--tree", "a=b", "--json"] := by
    decide +kernel
  rw [← honce, ← hmore]
  exact ⟨hrun, htwice⟩

end ODataQuery
