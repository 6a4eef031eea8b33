import LayerGraph.Proofs.Chain

/-! # The styles of a program

The automatic style takes the sequential form for a chain and the functional form for every other
graph, and looks at nothing else.  In particular it never checks the outputs of a chain.  It need
not: the input of a chain leads to its output, so the functional form exists as well, and since the
layers of a chain are declared the sequential form exists too.

## Key results

- `exists_sequential`: the sequential form of declared layers exists
- `compileAs_cases`: how the three styles can differ
- `compile_auto_agrees`: the automatic style against the other two -/

namespace LayerGraph.Graph

variable {g : Graph} {o : Options} {order : List NodeId} {c : Chain}

/-- What comes of compiling a graph in a style, with all other options as they are. -/
def compileAs (g : Graph) (o : Options) (style : Style) : Except CompileError String :=
  (g.compile { o with style := style }).result

/-! ## Generating -/

-- The texts of a program depend on the target, the import and the name, but not on the style.

private theorem functional_style (g : Graph) (o : Options) (style : Style) (order : List NodeId) :
    g.functional { o with style := style } order = g.functional o order := by
  obtain ⟨target, _, _, _⟩ := o
  cases target with
  | keras => rfl
  | tensorFlowJs => rfl

private theorem sequential_style (g : Graph) (o : Options) (style : Style) (c : Chain) :
    g.sequential { o with style := style } c = g.sequential o c := by
  obtain ⟨target, _, _, _⟩ := o
  cases target with
  | keras => rfl
  | tensorFlowJs => rfl

/-- Without a schedule there is no program in any style. -/
private theorem compileAs_of_schedule_error {e : CompileError} (h : g.schedule.result = .error e)
    (style : Style) : g.compileAs o style = .error e := by
  rw [compileAs, compile_result, h]
  rfl

/-- What the functional style generates from a schedule, … -/
private theorem compileAs_functional (h : g.schedule.result = .ok order) :
    g.compileAs o .functional = (g.functional o order).result := by
  rw [compileAs, compile_result, h, ← functional_style g o .functional]
  rfl

/-- … what the sequential style does, … -/
private theorem compileAs_sequential (h : g.schedule.result = .ok order) :
    g.compileAs o .sequential = g.chain order >>= fun c => (g.sequential o c).result := by
  have hstyle : ∀ c, g.sequential o c = g.sequential { o with style := .sequential } c :=
    fun c => (sequential_style g o .sequential c).symm
  simp only [hstyle]
  rw [compileAs, compile_result, h]
  show (g.generate { o with style := .sequential } order).result = _
  simp only [generate, Traced.result_bind, Traced.result_liftM]

/-- … and the automatic style if there is a chain … -/
theorem compileAs_auto_of_chain (h : g.schedule.result = .ok order) (hc : g.chain order = .ok c) :
    g.compileAs o .auto = (g.sequential o c).result := by
  rw [compileAs, compile_result, h, ← sequential_style g o .auto]
  show (g.generate { o with style := .auto } order).result = _
  simp only [generate, hc, Traced.result_bind, Traced.result_report]
  rfl

/-- … and if there is none. -/
private theorem compileAs_auto_of_chain_error (h : g.schedule.result = .ok order) {e : CompileError}
    (hc : g.chain order = .error e) : g.compileAs o .auto = (g.functional o order).result := by
  rw [compileAs, compile_result, h, ← functional_style g o .auto]
  show (g.generate { o with style := .auto } order).result = _
  simp only [generate, hc, Traced.result_bind, Traced.result_report]
  rfl

/-! ## Both forms of a chain exist -/

/-- The sequential program of declared layers exists. -/
theorem exists_sequential (o : Options) (hinput : c.input ∈ g.ids)
    (hlayers : ∀ id ∈ c.layers, id ∈ g.ids) : ∃ code, (g.sequential o c).result = .ok code := by
  have hfault : g.stackFault? c = none :=
    (g.findSome?_undeclared?_eq_none_iff _).mpr (List.forall_mem_cons.mpr ⟨hinput, hlayers⟩)
  rw [sequential_result, hfault]
  exact ⟨_, rfl⟩

/-- A chain has a program in both forms. -/
private theorem exists_forms_of_chain (hg : g.WellFormed) (o : Options)
    (h : g.schedule.result = .ok order) (hc : g.chain order = .ok c) :
    (∃ code, (g.sequential o c).result = .ok code) ∧
      ∃ code, (g.functional o order).result = .ok code := by
  obtain ⟨output, houtputs, horder, _, hchain⟩ := isChain_of_chain hg h hc
  have hids := mem_ids_of_mem_schedule hg h
  obtain ⟨last, hlast, hleads⟩ := exists_last_of_isChain hchain
  constructor
  · -- All nodes of the chain are declared.
    rw [horder] at hids
    exact exists_sequential o (hids _ List.mem_cons_self) fun id hid =>
      hids id (List.mem_cons_of_mem _ hid)
  · -- The last layer leads to the output, so nothing is wrong with the outputs of the model.
    rw [← horder] at hlast
    rw [functional_result hg, modelFault?_of_schedule hg h,
      outputsFault?_of_leads hlast houtputs hleads]
    exact ⟨_, rfl⟩

/-! ## Comparing the styles -/

/-- All styles fail alike, or the graph is a chain and all succeed, or it is none and the automatic
    style does what the functional style does. -/
theorem compileAs_cases (hg : g.WellFormed) (o : Options) :
    (∃ e, ∀ style, g.compileAs o style = .error e) ∨
    (∃ code code', g.compileAs o .sequential = .ok code ∧ g.compileAs o .auto = .ok code ∧
      g.compileAs o .functional = .ok code') ∨
    ∃ e, g.compileAs o .sequential = .error e ∧
      g.compileAs o .auto = g.compileAs o .functional := by
  cases h : g.schedule.result with
  | error e => exact .inl ⟨e, compileAs_of_schedule_error h⟩
  | ok order =>
    refine .inr ?_
    rw [compileAs_sequential h, compileAs_functional h]
    cases hc : g.chain order with
    | ok c =>
      obtain ⟨⟨code, hcode⟩, code', hcode'⟩ := exists_forms_of_chain hg o h hc
      rw [compileAs_auto_of_chain h hc]
      exact .inl ⟨code, code', hcode, hcode, hcode'⟩
    | error e => exact .inr ⟨e, rfl, compileAs_auto_of_chain_error h hc⟩

/-- The automatic style succeeds just if the functional style does, and fails with the same error.
    It gives the sequential program if there is one, and otherwise the functional one. -/
theorem compile_auto_agrees (hg : g.Built) (o : Options) :
    ((∃ code, g.compileAs o .auto = .ok code) ↔ ∃ code, g.compileAs o .functional = .ok code) ∧
    (∀ e, g.compileAs o .auto = .error e ↔ g.compileAs o .functional = .error e) ∧
    (∀ code, g.compileAs o .sequential = .ok code → g.compileAs o .auto = .ok code) ∧
    ∀ e code, g.compileAs o .sequential = .error e → g.compileAs o .functional = .ok code →
      g.compileAs o .auto = .ok code := by
  rcases compileAs_cases hg.wellFormed o with ⟨e, hall⟩ |
    ⟨code, code', hsequential, hauto, hfunctional⟩ | ⟨e, hsequential, hauto⟩
  · simp [hall]
  · simp [hsequential, hauto, hfunctional]
  · simp [hsequential, hauto]

/-- For a chain the automatic style gives the sequential program. -/
theorem compile_auto_agrees_line :
    line.Built ∧ ∃ code, line.compileAs { target := .tensorFlowJs } .auto = .ok code ∧
      line.compileAs { target := .tensorFlowJs } .sequential = .ok code := by
  obtain ⟨code, hcode⟩ : ∃ code,
      (line.sequential { target := .tensorFlowJs } ⟨⟨"a"⟩, [⟨"x"⟩, ⟨"y"⟩]⟩).result = .ok code :=
    ⟨_, rfl⟩
  have hsequential : line.compileAs { target := .tensorFlowJs } .sequential = .ok code := by
    rw [compileAs_sequential line_schedule, line_chain]
    exact hcode
  exact ⟨line_built, code, (compile_auto_agrees line_built _).2.2.1 code hsequential, hsequential⟩

end LayerGraph.Graph
