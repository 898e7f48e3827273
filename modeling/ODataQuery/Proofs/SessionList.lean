import ODataQuery.Proofs.DepthLimit

/-! A session that renders filters one after another does the same as compiling one list of
them. Both hand the number of parameters on from filter to filter, the session between its
calls and the list inside one pass. The list stops at the first rejection; up to there the
two hold the same parameters. -/
namespace ODataQuery

open FilterTree

/-- Renders filters in turn, whether or not they are rejected: the answers, and the session
after the last of them. -/
def Session.renderEach (s : Session) :
    List FilterTree → List (Except Rejection String) × Session
  | [] => ([], s)
  | t :: ts =>
    let (answer, next) := s.render t
    let (answers, last) := next.renderEach ts
    (answer :: answers, last)

theorem Session.renderEach_cons (s : Session) (t : FilterTree) (ts : List FilterTree) :
    s.renderEach (t :: ts) =
      ((s.render t).1 :: ((s.render t).2.renderEach ts).1,
        ((s.render t).2.renderEach ts).2) :=
  rfl

/-- One call of a session without a depth limit, seen at any depth. -/
theorem session_render_unlimited (style : LiteralStyle) (ps : List Param) (depth : Nat)
    (t : FilterTree) :
    Session.render ⟨⟨style, none⟩, ps⟩ t =
      ((render ⟨style, none⟩ depth ps.length t).result,
        ⟨⟨style, none⟩, ps ++ (render ⟨style, none⟩ depth ps.length t).params⟩) := by
  rw [render_unlimited style depth 1]
  rfl

/-- After filters that are all rendered, the pass over a list stands where the session
stands: the rest is rendered from the parameters that the session holds. -/
theorem renderAll_append_of_session {style : LiteralStyle} {ps : List Param}
    {before : List FilterTree} {xs : List String} {s : Session}
    (h : Session.renderEach ⟨⟨style, none⟩, ps⟩ before = (xs.map .ok, s)) (depth : Nat)
    (rest : List FilterTree) :
    s.options = ⟨style, none⟩ ∧
      (renderAll ⟨style, none⟩ depth ps.length (before ++ rest)).result =
        (renderAll ⟨style, none⟩ depth s.params.length rest).result.map (xs ++ ·) ∧
      ps ++ (renderAll ⟨style, none⟩ depth ps.length (before ++ rest)).params =
        s.params ++ (renderAll ⟨style, none⟩ depth s.params.length rest).params := by
  -- `ps` is what the session holds before it comes to `before`
  induction before generalizing ps xs with
  | nil =>
    obtain ⟨hxs, rfl⟩ := Prod.mk.inj h
    have hnil : xs = [] := List.map_eq_nil_iff.mp hxs.symm
    refine ⟨rfl, ?_, rfl⟩
    rw [hnil, List.nil_append]
    cases (renderAll ⟨style, none⟩ depth ps.length rest).result <;> rfl
  | cons t before ih =>
    rw [Session.renderEach_cons, session_render_unlimited style ps depth t] at h
    obtain ⟨hanswers, hlast⟩ := Prod.mk.inj h
    obtain ⟨x, ys, rfl, hx, hys⟩ := List.map_eq_cons_iff.mp hanswers.symm
    -- the list counts the parameters of the first filter, the session has them already
    obtain ⟨hoptions, hresult, hparams⟩ := ih (Prod.ext hys.symm hlast)
    rw [List.length_append] at hresult hparams
    obtain ⟨hres, hpar⟩ := renderAll_cons_of_ok hx.symm (before ++ rest)
    refine ⟨hoptions, ?_, ?_⟩
    · rw [List.cons_append, hres, hresult]
      cases (renderAll ⟨style, none⟩ depth s.params.length rest).result <;> rfl
    · rw [List.cons_append, hpar, ← List.append_assoc, hparams]

theorem renderAll_of_session_ok {style : LiteralStyle} {ts : List FilterTree}
    {xs : List String} {s : Session}
    (h : Session.renderEach ⟨⟨style, none⟩, []⟩ ts = (xs.map .ok, s)) (depth : Nat) :
    (renderAll ⟨style, none⟩ depth 0 ts).result = .ok xs ∧
      (renderAll ⟨style, none⟩ depth 0 ts).params = s.params := by
  obtain ⟨-, hresult, hparams⟩ := renderAll_append_of_session h depth []
  have hnil : renderAll ⟨style, none⟩ depth s.params.length [] = .done [] := by rw [renderAll]
  rw [List.append_nil, List.length_nil, hnil] at hresult hparams
  constructor
  · rw [hresult]
    exact congrArg Except.ok (List.append_nil xs)
  · rw [List.nil_append] at hparams
    rw [hparams]
    exact List.append_nil s.params

/-- What comes behind the first filter that is rejected is not looked at. -/
theorem renderAll_of_session_error {style : LiteralStyle} {before : List FilterTree}
    {t : FilterTree} {xs : List String} {s s' : Session} {e : Rejection}
    (hbefore : Session.renderEach ⟨⟨style, none⟩, []⟩ before = (xs.map .ok, s))
    (ht : s.render t = (.error e, s')) (depth : Nat) (after : List FilterTree) :
    (renderAll ⟨style, none⟩ depth 0 (before ++ t :: after)).result = .error e ∧
      (renderAll ⟨style, none⟩ depth 0 (before ++ t :: after)).params = s'.params := by
  obtain ⟨o, ps⟩ := s
  obtain ⟨rfl, hresult, hparams⟩ := renderAll_append_of_session hbefore depth (t :: after)
  -- the session renders at depth 1, the items of the list stand deeper
  rw [session_render_unlimited style ps depth t] at ht
  obtain ⟨herror, rfl⟩ := Prod.mk.inj ht
  obtain ⟨hres, hpar⟩ := renderAll_cons_of_error herror after
  rw [hres] at hresult
  rw [hpar] at hparams
  exact ⟨hresult, hparams⟩

theorem render_list_unlimited (style : LiteralStyle) (text : String) (ts : List FilterTree) :
    render ⟨style, none⟩ 1 0 (.node .list text ts) =
      (renderAll ⟨style, none⟩ 2 0 ts).map listText := by
  rw [render]
  rfl

/-- Without a depth limit, filters that a fresh session renders in turn give the items and
the parameters of the list of these filters. If the session is rejected on the way, the list
is rejected for the reason of the first call that fails, and rendering the list leaves the
parameters that the session holds after this call. -/
theorem compile_list_eq_session (style : LiteralStyle) (text : String)
    (ts : List FilterTree) :
    (∀ (xs : List String) (s : Session),
      Session.renderEach ⟨⟨style, none⟩, []⟩ ts = (xs.map .ok, s) →
      compile ⟨style, none⟩ (.node .list text ts) =
        .ok ⟨"[" ++ ", ".intercalate xs ++ "]", s.params⟩) ∧
      ∀ (before after : List FilterTree) (t : FilterTree) (xs : List String) (s s' : Session)
        (e : Rejection), ts = before ++ t :: after →
        Session.renderEach ⟨⟨style, none⟩, []⟩ before = (xs.map .ok, s) →
        s.render t = (.error e, s') →
        compile ⟨style, none⟩ (.node .list text ts) = .error e ∧
          (Session.render ⟨⟨style, none⟩, []⟩ (.node .list text ts)).2.params = s'.params := by
  have hlist := render_list_unlimited style text ts
  constructor
  · intro xs s h
    obtain ⟨htexts, hheld⟩ := renderAll_of_session_ok h 2
    have hrender : (render ⟨style, none⟩ 1 0 (.node .list text ts)).result =
        .ok (listText xs) := by
      rw [hlist, Rendering.result_map, htexts]
      rfl
    rw [compile_of_render_ok hrender, hlist, Rendering.params_map, hheld]
    rfl
  · rintro before after t xs s s' e rfl hbefore ht
    obtain ⟨herror, hheld⟩ := renderAll_of_session_error hbefore ht 2 after
    constructor
    · apply compile_eq_error_iff_render.mpr
      rw [hlist, Rendering.result_map, herror]
      rfl
    · simp only [Session.render, hlist, Rendering.params_map, List.length_nil, hheld,
        List.nil_append]

theorem compile_list_eq_session_third_fails :
    Session.renderEach ⟨⟨.bind, none⟩, []⟩ [number "1", string "x"] =
        ([.ok "@p1", .ok "@p2"],
          ⟨⟨.bind, none⟩, [⟨.literal .number, "1"⟩, ⟨.literal .string, "x"⟩]⟩) ∧
      compile ⟨.bind, none⟩ (.node .list "(" [number "1", string "x"]) =
        .ok ⟨"[@p1, @p2]", [⟨.literal .number, "1"⟩, ⟨.literal .string, "x"⟩]⟩ ∧
      compile ⟨.bind, none⟩ (.node .list "(" [number "1", string "x",
          comparison "eq" (number "2") (leaf (.unsupported .null) "null"), number "3"]) =
        .error (.unsupportedKind .null) ∧
      (Session.render ⟨⟨.bind, none⟩, []⟩ (.node .list "(" [number "1", string "x",
          comparison "eq" (number "2") (leaf (.unsupported .null) "null"), number "3"])).2.params =
        [⟨.literal .number, "1"⟩, ⟨.literal .string, "x"⟩, ⟨.literal .number, "2"⟩] := by
  have hboth : Session.renderEach ⟨⟨.bind, none⟩, []⟩ [number "1", string "x"] =
      (["@p1", "@p2"].map .ok,
        ⟨⟨.bind, none⟩, [⟨.literal .number, "1"⟩, ⟨.literal .string, "x"⟩]⟩) := rfl
  have hthird : Session.render
      ⟨⟨.bind, none⟩, [⟨.literal .number, "1"⟩, ⟨.literal .string, "x"⟩]⟩
      (comparison "eq" (number "2") (leaf (.unsupported .null) "null")) =
      (.error (.unsupportedKind .null), ⟨⟨.bind, none⟩,
        [⟨.literal .number, "1"⟩, ⟨.literal .string, "x"⟩, ⟨.literal .number, "2"⟩]⟩) := rfl
  obtain ⟨hok, -⟩ := compile_list_eq_session .bind "(" [number "1", string "x"]
  obtain ⟨-, hfails⟩ := compile_list_eq_session .bind "(" [number "1", string "x",
    comparison "eq" (number "2") (leaf (.unsupported .null) "null"), number "3"]
  obtain ⟨herror, hheld⟩ := hfails [number "1", string "x"] [number "3"] _ _ _ _ _ rfl hboth hthird
  exact ⟨hboth, hok _ _ hboth, herror, hheld⟩

end ODataQuery
