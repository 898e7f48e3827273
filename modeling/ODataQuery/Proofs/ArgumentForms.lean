import ODataQuery.Proofs.Arguments
import Mathlib.Data.List.Nodup
import Mathlib.Data.List.TakeWhile

/-! The argument lists that are understood, and what they ask for. An option is spelled by one
argument, or by two if its value stands by itself; arguments are read as settings exactly if
they are spellings of these settings one after another. The request that comes of them says
what the settings say. -/
namespace ODataQuery
namespace Setting

/-- The arguments that give a setting. -/
inductive Spelled : Setting → List String → Prop
  | bind : Spelled .bind ["--bind"]
  | json : Spelled .json ["--json"]
  | tree {path : String} (value : looksLikeOption path = false) :
      Spelled (.tree path) ["--tree", path]
  | treeJoined (path : String) : Spelled (.tree path) ["--tree=" ++ path]
  | maxDepth {numeral : String} {limit : UInt64} (reads : readWord? numeral = some limit) :
      Spelled (.maxDepth limit) ["--max-depth", numeral]
  | maxDepthJoined {numeral : String} {limit : UInt64}
      (reads : readWord? numeral = some limit) :
      Spelled (.maxDepth limit) ["--max-depth=" ++ numeral]

/-- The arguments that give some settings in their order; two dashes may end them. -/
inductive SpelledAll : List Setting → List String → Prop
  | nil : SpelledAll [] []
  | dashes : SpelledAll [] ["--"]
  | cons {s : Setting} {settings : List Setting} {arguments rest : List String}
      (first : Spelled s arguments) (others : SpelledAll settings rest) :
      SpelledAll (s :: settings) (arguments ++ rest)

end Setting

/-- A name and a value are joined by the first equals sign. -/
theorem splitAssignment?_eq_some_iff {s name value : String} :
    splitAssignment? s = some (name, value) ↔
      s = name ++ "=" ++ value ∧ '=' ∉ name.toList := by
  have hjoin : s = name ++ "=" ++ value ↔ s.toList = name.toList ++ '=' :: value.toList := by
    rw [← String.toList_inj, String.toList_append, String.toList_append, List.append_assoc]
    rfl
  rw [hjoin, splitAssignment?]
  constructor
  · intro h
    have hparts := List.takeWhile_append_dropWhile (p := (· ≠ '=')) (l := s.toList)
    have hsign := List.head?_dropWhile_not (· ≠ '=') s.toList
    split at h
    · cases h
    · rename_i c rest hrest
      rw [Option.some.injEq, Prod.mk.injEq] at h
      obtain ⟨rfl, rfl⟩ := h
      rw [hrest] at hparts hsign
      -- the first character that is left is the sign itself
      have hc : c = '=' := by simpa using hsign
      subst hc
      rw [String.toList_ofList, String.toList_ofList, hparts]
      refine ⟨rfl, ?_⟩
      intro hmem
      have hother := List.mem_takeWhile_imp hmem
      simp at hother
  · rintro ⟨hs, hname⟩
    have hbefore : ∀ c ∈ name.toList, decide (c ≠ '=') = true := by
      intro c hc
      exact decide_eq_true fun h => hname (h ▸ hc)
    rw [hs, List.takeWhile_append_of_pos hbefore, List.dropWhile_append_of_pos hbefore]
    simp

/-- A numeral begins with a digit or a plus sign. -/
theorem looksLikeOption_of_readWord? {s : String} {n : UInt64} (h : readWord? s = some n) :
    looksLikeOption s = false := by
  rw [looksLikeOption]
  split
  · rename_i hs
    -- a dash is no digit
    rw [readWord?, hs] at h
    simp at h
  · rfl

theorem asksHelp_iff {argument : String} :
    Advice.asksHelp argument = true ↔
      argument = "--help" ∨ ∃ cs, argument.toList = '-' :: 'h' :: cs := by
  rw [Advice.asksHelp, Bool.or_eq_true, decide_eq_true_iff, List.isPrefixOf_iff_prefix]
  simp only [List.IsPrefix, List.cons_append, List.nil_append, eq_comm]

/-- An argument with two dashes asks for help only if an `h` follows. -/
theorem asksHelp_of_third {argument : String} {c : Char} {cs : List Char}
    (h : argument.toList = '-' :: '-' :: c :: cs) (hc : c ≠ 'h') :
    Advice.asksHelp argument = false := by
  apply Bool.eq_false_iff.mpr
  intro hasks
  rcases asksHelp_iff.mp hasks with rfl | ⟨rest, hrest⟩
  · cases h
    exact hc rfl
  · rw [h] at hrest
    cases hrest

theorem asksHelp_of_value {argument : String} (h : looksLikeOption argument = false) :
    Advice.asksHelp argument = false := by
  apply Bool.eq_false_iff.mpr
  intro hasks
  rcases asksHelp_iff.mp hasks with rfl | ⟨rest, hrest⟩
  · cases h
  · rw [looksLikeOption, hrest] at h
    cases h

namespace Setting

theorem ofFlag?_eq_some_iff {argument : String} {s : Setting} :
    ofFlag? argument = some s ↔
      (argument = "--bind" ∧ s = .bind) ∨ (argument = "--json" ∧ s = .json) := by
  rw [ofFlag?]
  split
  · rename_i hbind
    subst hbind
    simp [eq_comm]
  · split
    · rename_i hjson
      subst hjson
      simp [eq_comm]
    · rename_i hbind hjson
      simp [hbind, hjson]

theorem ofValue?_eq_some_iff {name value : String} {s : Setting} :
    ofValue? name value = some s ↔
      (name = "--tree" ∧ s = .tree value) ∨
        (name = "--max-depth" ∧ ∃ n, readWord? value = some n ∧ s = .maxDepth n) := by
  rw [ofValue?]
  split
  · rename_i htree
    subst htree
    simp [eq_comm]
  · split
    · rename_i hdepth
      subst hdepth
      simp [eq_comm]
    · rename_i htree hdepth
      simp [htree, hdepth]

theorem readAll_assignment {name : String} (hname : '=' ∉ name.toList) (value : String)
    (rest : List String) :
    readAll ((name ++ "=" ++ value) :: rest) =
      (ofValue? name value).bind fun s => (readAll rest).map (s :: ·) := by
  -- flags and the two dashes are ruled out by the equals sign
  have hne {word : String} (hword : '=' ∉ word.toList) : name ++ "=" ++ value ≠ word := by
    rintro rfl
    apply hword
    simp
  have hflag : ofFlag? (name ++ "=" ++ value) = none := by
    apply Option.eq_none_iff_forall_ne_some.mpr
    intro s hs
    rcases ofFlag?_eq_some_iff.mp hs with ⟨h, -⟩ | ⟨h, -⟩
    · exact hne (by decide) h
    · exact hne (by decide) h
  have hdashes : name ++ "=" ++ value ≠ "--" := hne (by decide)
  have hsplit : splitAssignment? (name ++ "=" ++ value) = some (name, value) :=
    splitAssignment?_eq_some_iff.mpr ⟨rfl, hname⟩
  rw [readAll.eq_def]
  dsimp only
  rw [if_neg fun h => hdashes h.1, hflag, hsplit]
  rfl

/-- No argument of an option that is given asks for help. -/
theorem Spelled.asksHelp {s : Setting} {arguments : List String} (h : Spelled s arguments) :
    ∀ argument ∈ arguments, Advice.asksHelp argument = false := by
  cases h with
  | bind => exact List.forall_mem_singleton.mpr (by decide)
  | json => exact List.forall_mem_singleton.mpr (by decide)
  | tree hvalue =>
    exact List.forall_mem_cons.mpr
      ⟨by decide, List.forall_mem_singleton.mpr (asksHelp_of_value hvalue)⟩
  | maxDepth hreads =>
    exact List.forall_mem_cons.mpr ⟨by decide,
      List.forall_mem_singleton.mpr (asksHelp_of_value (looksLikeOption_of_readWord? hreads))⟩
  | treeJoined path =>
    exact List.forall_mem_singleton.mpr
      (asksHelp_of_third (by rw [String.toList_append]; rfl) (by decide))
  | maxDepthJoined hreads =>
    exact List.forall_mem_singleton.mpr
      (asksHelp_of_third (by rw [String.toList_append]; rfl) (by decide))

/-- What gives a setting is read as this setting, whatever follows. -/
theorem readAll_spelled {s : Setting} {arguments : List String} (h : Spelled s arguments)
    (rest : List String) : readAll (arguments ++ rest) = (readAll rest).map (s :: ·) := by
  cases h with
  | bind => exact readAll_flag rfl (by decide) rest
  | json => exact readAll_flag rfl (by decide) rest
  | @tree path hvalue =>
    change readAll ("--tree" :: path :: rest) = _
    rw [readAll_value rfl rfl (by decide), hvalue]
    rfl
  | @maxDepth numeral limit hreads =>
    have hvalue := ofValue?_eq_some_iff.mpr (.inr ⟨rfl, limit, hreads, rfl⟩)
    change readAll ("--max-depth" :: numeral :: rest) = _
    rw [readAll_value rfl rfl (by decide), looksLikeOption_of_readWord? hreads, hvalue]
    rfl
  | treeJoined path =>
    have hname : "--tree=" = "--tree" ++ "=" := by decide +kernel
    rw [hname, List.singleton_append, readAll_assignment (by decide)]
    rfl
  | @maxDepthJoined numeral limit hreads =>
    have hname : "--max-depth=" = "--max-depth" ++ "=" := by decide +kernel
    have hvalue := ofValue?_eq_some_iff.mpr (.inr ⟨rfl, limit, hreads, rfl⟩)
    rw [hname, List.singleton_append, readAll_assignment (by decide), hvalue]
    rfl

/-- Arguments are read as the settings that they spell, and nothing else is understood. -/
theorem readAll_eq_some_iff {arguments : List String} {settings : List Setting} :
    readAll arguments = some settings ↔ SpelledAll settings arguments := by
  constructor
  · intro h
    -- each case of the scan takes one spelling off the front
    fun_induction readAll arguments generalizing settings with
    | case1 =>
      cases h
      exact .nil
    | case2 argument rest hend =>
      obtain ⟨rfl, rfl⟩ := hend
      cases h
      exact .dashes
    | case3 argument rest _ s hflag ih =>
      obtain ⟨others, hrest, rfl⟩ := Option.map_eq_some_iff.mp h
      rcases ofFlag?_eq_some_iff.mp hflag with ⟨rfl, rfl⟩ | ⟨rfl, rfl⟩
      · exact .cons .bind (ih hrest)
      · exact .cons .json (ih hrest)
    | case4 argument rest _ name value hsplit hflag ih =>
      obtain ⟨s, hs, h⟩ := Option.bind_eq_some_iff.mp h
      obtain ⟨others, hrest, rfl⟩ := Option.map_eq_some_iff.mp h
      obtain ⟨rfl, -⟩ := splitAssignment?_eq_some_iff.mp hsplit
      rcases ofValue?_eq_some_iff.mp hs with ⟨rfl, rfl⟩ | ⟨rfl, n, hn, rfl⟩
      · exact .cons (.treeJoined value) (ih hrest)
      · exact .cons (.maxDepthJoined hn) (ih hrest)
    | case5 => cases h
    | case6 => cases h
    | case7 argument _ _ value rest hvalue _ ih =>
      obtain ⟨s, hs, h⟩ := Option.bind_eq_some_iff.mp h
      obtain ⟨others, hrest, rfl⟩ := Option.map_eq_some_iff.mp h
      rcases ofValue?_eq_some_iff.mp hs with ⟨rfl, rfl⟩ | ⟨rfl, n, hn, rfl⟩
      · exact .cons (.tree (Bool.eq_false_iff.mpr hvalue)) (ih hrest)
      · exact .cons (.maxDepth hn) (ih hrest)
  · intro h
    induction h with
    | nil => rw [readAll]
    | dashes => rw [readAll]; rfl
    | cons first _ ih => rw [readAll_spelled first, ih, Option.map_some]

end Setting

/-- Where each option is given once, the value of one is found exactly if it is given. -/
theorem findSome?_eq_some_iff_mem {α : Type} {settings : List Setting} {value? : Setting → Option α}
    {setting : α → Setting} (h : Setting.distinct settings = true)
    (hvalue : ∀ s a, value? s = some a ↔ s = setting a)
    (hoption : ∀ a b, (setting a).option = (setting b).option) (a : α) :
    settings.findSome? value? = some a ↔ setting a ∈ settings := by
  have hmem {a : α} (hfound : settings.findSome? value? = some a) : setting a ∈ settings := by
    obtain ⟨s, hs, hfound⟩ := List.exists_of_findSome?_eq_some hfound
    rwa [(hvalue s a).mp hfound] at hs
  refine ⟨hmem, ?_⟩
  intro hgiven
  have hsome : (settings.findSome? value?).isSome = true :=
    List.findSome?_isSome_iff.mpr ⟨_, hgiven, by rw [(hvalue _ a).mpr rfl]; rfl⟩
  obtain ⟨other, hother⟩ := Option.isSome_iff_exists.mp hsome
  -- another value would be the same option twice
  have hsame : setting other = setting a :=
    List.inj_on_of_nodup_map (of_decide_eq_true h) (hmem hother) hgiven (hoption other a)
  rw [hother, ← (hvalue _ other).mpr rfl, hsame, (hvalue _ a).mpr rfl]

namespace CompileRequest

/-- The request says what the settings say, and nothing else. -/
structure Matches (request : CompileRequest) (settings : List Setting) : Prop where
  path : ∀ path, request.path = path ↔ .tree path ∈ settings
  literals : request.options.literals = .bind ↔ .bind ∈ settings
  maxDepth : ∀ limit, request.options.maxDepth = some limit ↔ .maxDepth limit ∈ settings
  format : request.format = .json ↔ .json ∈ settings

/-- The arguments are the command and the settings of the request. -/
def GivenBy (request : CompileRequest) (arguments : List String) : Prop :=
  ∃ rest settings, arguments = "compile" :: rest ∧ Setting.SpelledAll settings rest ∧
    request.Matches settings

theorem matches_of_ofSettings? {settings : List Setting} {request : CompileRequest}
    (h : ofSettings? settings = some request) : request.Matches settings := by
  obtain ⟨path, hpath, h⟩ := Option.bind_eq_some_iff.mp h
  split at h
  · rename_i hdistinct
    have htree : ∀ s path, Setting.path? s = some path ↔ s = .tree path := by
      intro s path
      cases s <;> simp [Setting.path?]
    have hlimit : ∀ s limit, Setting.limit? s = some limit ↔ s = .maxDepth limit := by
      intro s limit
      cases s <;> simp [Setting.limit?]
    cases h
    refine ⟨?_, ?_, findSome?_eq_some_iff_mem hdistinct hlimit fun _ _ => rfl, ?_⟩
    · intro other
      rw [← findSome?_eq_some_iff_mem hdistinct htree fun _ _ => rfl, hpath,
        Option.some.injEq]
    · simp
    · simp [Setting.format]
  · cases h

/-- Settings leave no choice of the request. -/
theorem Matches.unique {settings : List Setting} {request other : CompileRequest}
    (h : request.Matches settings) (h' : other.Matches settings) : request = other := by
  obtain ⟨path, ⟨literals, maxDepth⟩, format⟩ := request
  obtain ⟨path', ⟨literals', maxDepth'⟩, format'⟩ := other
  obtain rfl : path = path' := (h.path path').mpr ((h'.path path').mp rfl)
  obtain rfl : maxDepth = maxDepth' :=
    Option.ext fun limit => (h.maxDepth limit).trans (h'.maxDepth limit).symm
  -- of the literal styles and the formats there are two each
  obtain rfl : literals = literals' := by
    have hbind := h.literals.trans h'.literals.symm
    cases literals <;> cases literals' <;> simp_all
  obtain rfl : format = format' := by
    have hjson := h.format.trans h'.format.symm
    cases format <;> cases format' <;> simp_all
  rfl

end CompileRequest

/-- Arguments that are understood and begin with the command give a request, and this request
is what they are read as. -/
theorem givenBy_of_ofArguments {rest : List String} {command : Command}
    (h : Command.ofArguments ("compile" :: rest) = .ok command) :
    ∃ request : CompileRequest, request.GivenBy ("compile" :: rest) ∧
      command = .compile request := by
  cases hread : (Setting.readAll rest).bind CompileRequest.ofSettings? with
  | none =>
    rw [ofArguments_of_no_request hread] at h
    cases h
  | some request =>
    rw [ofArguments_of_request hread] at h
    cases h
    obtain ⟨settings, hsettings, hrequest⟩ := Option.bind_eq_some_iff.mp hread
    exact ⟨request, ⟨rest, settings, rfl, Setting.readAll_eq_some_iff.mp hsettings,
      CompileRequest.matches_of_ofSettings? hrequest⟩, rfl⟩

/-- Arguments give one request at most. -/
theorem CompileRequest.GivenBy.unique {arguments : List String} {request other : CompileRequest}
    (h : request.GivenBy arguments) (h' : other.GivenBy arguments) : request = other := by
  obtain ⟨rest, settings, rfl, hspelled, hmatches⟩ := h
  obtain ⟨rest', settings', hrest, hspelled', hmatches'⟩ := h'
  cases hrest
  have hsettings : some settings = some settings' :=
    (Setting.readAll_eq_some_iff.mpr hspelled).symm.trans
      (Setting.readAll_eq_some_iff.mpr hspelled')
  cases hsettings
  exact hmatches.unique hmatches'

end ODataQuery
