import Scriptorium.Proofs.TreeWords

/-!
# Where line breaks may stand

The words of a program can be laid out in many ways.  A line break may stand in front of a
word unless the word is glued to the one before it, and only two words ever are: the
parenthesis that opens the arguments of a call, and the sign in the declaration of a
variable with a value.

* `Link`, `Lays` — words with marks on those that are glued, and their layouts;
* `Expr.links`, `Links` — the links of the words of a program;
* `Spells.lays`, `SpellsStmt.exists_links` — what spells a program is a layout of its links;
* `Expr.spells_of_lays`, `Links.spells` — every layout of its links spells a program.
-/

namespace Scriptorium

/-! ## Layouts -/

/-- A word, and whether no line break may stand in front of it. -/
structure Link where
  /-- The word. -/
  word : Word
  /-- Is the word glued to the one before it? -/
  glued : Bool
  deriving DecidableEq, Repr

/-- A word in front of which line breaks may stand. -/
def Link.free (w : Word) : Link := ⟨w, false⟩

/-- The words are those of the links, with line breaks in front of words that are not
glued. -/
inductive Lays : List Link → List Word → Prop where
  /-- Nothing is laid out as nothing. -/
  | nil : Lays [] []
  /-- Line breaks and a word. -/
  | free {w : Word} {ls : List Link} {nls ws : List Word} :
      Blank nls → Lays ls ws → Lays (.free w :: ls) (nls ++ w :: ws)
  /-- A word that is glued to the one before it. -/
  | glued {w : Word} {ls : List Link} {ws : List Word} :
      Lays ls ws → Lays (⟨w, true⟩ :: ls) (w :: ws)

section Lays

variable {w : Word} {ls ms : List Link} {ws : List Word}

@[simp] theorem lays_nil : Lays [] ws ↔ ws = [] := by
  constructor
  · intro h
    cases h
    rfl
  · rintro rfl
    exact .nil

@[simp] theorem lays_free :
    Lays (.free w :: ls) ws ↔ ∃ nls vs, Blank nls ∧ Lays ls vs ∧ ws = nls ++ w :: vs := by
  constructor
  · intro h
    cases h with
    | free hnls h => exact ⟨_, _, hnls, h, rfl⟩
  · rintro ⟨nls, vs, hnls, h, rfl⟩
    exact .free hnls h

@[simp] theorem lays_glued : Lays (⟨w, true⟩ :: ls) ws ↔ ∃ vs, Lays ls vs ∧ ws = w :: vs := by
  constructor
  · intro h
    cases h with
    | glued h => exact ⟨_, h, rfl⟩
  · rintro ⟨vs, h, rfl⟩
    exact .glued h

@[simp] theorem lays_append :
    Lays (ls ++ ms) ws ↔ ∃ us vs, Lays ls us ∧ Lays ms vs ∧ ws = us ++ vs := by
  constructor
  · intro h
    induction ls generalizing ws with
    | nil => exact ⟨[], ws, .nil, h, rfl⟩
    | cons l ls ih =>
      cases h with
      | free hnls h =>
        obtain ⟨us, vs, hus, hvs, rfl⟩ := ih h
        exact ⟨_, vs, .free hnls hus, hvs, by simp⟩
      | glued h =>
        obtain ⟨us, vs, hus, hvs, rfl⟩ := ih h
        exact ⟨_, vs, .glued hus, hvs, rfl⟩
  · rintro ⟨us, vs, hus, hvs, rfl⟩
    induction hus with
    | nil => exact hvs
    | free hnls _ ih =>
      rw [List.append_assoc, List.cons_append, List.cons_append]
      exact .free hnls ih
    | glued _ ih => exact .glued ih

theorem Lays.append {us vs : List Word} (hus : Lays ls us) (hvs : Lays ms vs) :
    Lays (ls ++ ms) (us ++ vs) :=
  lays_append.2 ⟨us, vs, hus, hvs, rfl⟩

/-- No line break has to stand in front of a word. -/
theorem Lays.next (h : Lays ls ws) : Lays (.free w :: ls) (w :: ws) := .free blank_nil h

theorem Lays.lead {nl : Word} (h : Lays (.free w :: ls) ws) (hnl : nl.isNewline = true) :
    Lays (.free w :: ls) (nl :: ws) := by
  obtain ⟨nls, vs, hnls, hvs, rfl⟩ := lays_free.1 h
  rw [← List.cons_append]
  exact .free (blank_cons.2 ⟨hnl, hnls⟩) hvs

end Lays

/-! ## Links of expressions -/

mutual

/-- The links of the words of an expression. -/
def Expr.links : Expr Unit → List Link
  | .literal (.int value) _ => [.free ⟨.int value, ""⟩]
  | .literal (.str text) _ => [.free ⟨.string, text⟩]
  | .literal (.bool b) _ => [.free (.keyword (if b then "true" else "false"))]
  | .unary op operand _ => .free op.word :: operand.links
  | .binary op left right _ => left.links ++ .free (Connective.binary op).word :: right.links
  | .logical op left right _ => left.links ++ .free (Connective.logical op).word :: right.links
  | .group inner _ => .free (.punct "(") :: (inner.links ++ [.free (.punct ")")])
  | .reference name _ => [.free (.symbol name)]
  | .assign name _ value _ => .free (.symbol name) :: .free (.punct "=") :: value.links
  | .call callee args _ =>
      callee.links ++ ⟨.punct "(", true⟩ :: (Expr.argumentLinks args ++ [.free (.punct ")")])

/-- The links of the words of arguments. -/
def Expr.argumentLinks : List (Expr Unit) → List Link
  | [] => []
  | [e] => e.links
  | e :: es => e.links ++ .free (.punct ",") :: Expr.argumentLinks es

end

/-- The links of the words of a phrase. -/
def Phrase.links : Phrase → List Link
  | .expr e => e.links
  | .args es => Expr.argumentLinks es

theorem Connective.links_tree (op : Connective) (left right : Expr Unit) :
    (op.tree left right).links = left.links ++ .free op.word :: right.links := by
  cases op <;> simp [tree, Expr.links]

/-- An expression starts with a word that is not glued. -/
theorem Expr.exists_links_eq : (e : Expr Unit) → ∃ w ls, e.links = .free w :: ls
  | .literal (.int _) _ | .literal (.str _) _ | .literal (.bool _) _ | .unary .. | .group ..
  | .reference .. | .assign .. => ⟨_, _, by rw [Expr.links]⟩
  | .binary _ left _ _ | .logical _ left _ _ | .call left _ _ => by
      obtain ⟨w, ls, hlinks⟩ := left.exists_links_eq
      exact ⟨w, _, by rw [Expr.links, hlinks, List.cons_append]⟩

/-- What spells a phrase is a layout of its links. -/
theorem Spells.lays {p : Phrase} {ws : List Word} (h : Spells p ws) (hw : AllLegible ws) :
    Lays p.links ws := by
  induction h with
  | @lead e nl ws hnl _ ih =>
    obtain ⟨w, ls, hlinks⟩ := e.exists_links_eq
    have hlays := ih (allLegible_cons.1 hw).2
    rw [Phrase.links, hlinks] at hlays ⊢
    exact hlays.lead hnl
  | int value => exact .next .nil
  | str text => exact .next .nil
  | bool b => exact .next .nil
  | reference name => exact .next .nil
  | group _ hnls hclose ih =>
    simp only [allLegible_cons, allLegible_append] at hw
    obtain ⟨-, ⟨hw, -⟩, hc, -⟩ := hw
    obtain rfl := hc.eq_punct hclose (by decide)
    rw [List.append_assoc]
    exact .next ((ih hw).append (.free hnls .nil))
  | unary hs _ ih =>
    obtain ⟨rfl, -⟩ := Word.eq_sign hs
    exact .next (ih (allLegible_cons.1 hw).2)
  | operation _ hnls hop _ ihl ihr =>
    simp only [allLegible_cons, allLegible_append] at hw
    obtain ⟨⟨hl, -⟩, ho, hr⟩ := hw
    obtain ⟨rfl, -⟩ := ho.eq_connective hop
    rw [Phrase.links, Connective.links_tree, List.append_assoc]
    exact (ihl hl).append (.free hnls (ihr hr))
  | assign _ hnls hsign _ ihn ihv =>
    simp only [allLegible_cons, allLegible_append] at hw
    obtain ⟨⟨hn, -⟩, ho, hv⟩ := hw
    obtain rfl := ho.eq_punct hsign (by decide)
    rw [List.append_assoc]
    exact (ihn hn).append (.free hnls (ihv hv))
  | call _ hopen _ hnls hclose ihf ihargs =>
    simp only [allLegible_cons, allLegible_append] at hw
    obtain ⟨hf, ho, ⟨hargs, -⟩, hc, -⟩ := hw
    obtain rfl := ho.eq_punct hopen (by decide)
    obtain rfl := hc.eq_punct hclose (by decide)
    rw [List.append_assoc]
    exact (ihf hf).append (.glued ((ihargs hargs).append (.free hnls .nil)))
  | noArgs => exact .nil
  | oneArg _ ih => exact ih hw
  | moreArgs _ hnls hcomma _ ih ihs =>
    simp only [allLegible_cons, allLegible_append] at hw
    obtain ⟨⟨he, -⟩, hc, hes⟩ := hw
    obtain rfl := hc.eq_punct hcomma (by decide)
    rw [List.append_assoc]
    exact (ih he).append (.free hnls (ihs hes))

/-- The layouts of an operator between operands. -/
theorem Connective.spells_of_lays (op : Connective) {left right : Expr Unit} {ws : List Word}
    (hleft : ∀ us, Lays left.links us → Spells (.expr left) us)
    (hright : ∀ vs, Lays right.links vs → Spells (.expr right) vs)
    (h : Lays (left.links ++ .free op.word :: right.links) ws) :
    Spells (.expr (op.tree left right)) ws := by
  simp only [lays_append, lays_free] at h
  obtain ⟨us, _, hus, ⟨nls, vs, hnls, hvs, rfl⟩, rfl⟩ := h
  rw [← List.append_assoc]
  exact .operation (hleft us hus) hnls op.connective?_word (hright vs hvs)

mutual

/-- Every layout of its links spells an expression. -/
theorem Expr.spells_of_lays : (e : Expr Unit) → {ws : List Word} → Lays e.links ws →
    Spells (.expr e) ws
  | .literal (.int value) _, _, h => by
      simp only [Expr.links, lays_free, lays_nil] at h
      obtain ⟨nls, _, hnls, rfl, rfl⟩ := h
      exact (Spells.int value).leads hnls
  | .literal (.str text) _, _, h => by
      simp only [Expr.links, lays_free, lays_nil] at h
      obtain ⟨nls, _, hnls, rfl, rfl⟩ := h
      exact (Spells.str text).leads hnls
  | .literal (.bool b) _, _, h => by
      simp only [Expr.links, lays_free, lays_nil] at h
      obtain ⟨nls, _, hnls, rfl, rfl⟩ := h
      exact (Spells.bool b).leads hnls
  | .unary op operand _, _, h => by
      simp only [Expr.links, lays_free] at h
      obtain ⟨nls, vs, hnls, hvs, rfl⟩ := h
      exact (Spells.unary op.sign?_word (operand.spells_of_lays hvs)).leads hnls
  | .binary op left right _, _, h =>
      (Connective.binary op).spells_of_lays (fun _ => left.spells_of_lays)
        (fun _ => right.spells_of_lays) h
  | .logical op left right _, _, h =>
      (Connective.logical op).spells_of_lays (fun _ => left.spells_of_lays)
        (fun _ => right.spells_of_lays) h
  | .group inner _, _, h => by
      simp only [Expr.links, lays_free, lays_append, lays_nil] at h
      obtain ⟨nls, _, hnls, ⟨us, _, hus, ⟨nls', _, hnls', rfl, rfl⟩, rfl⟩, rfl⟩ := h
      rw [← List.append_assoc]
      exact (Spells.group (inner.spells_of_lays hus) hnls' (Word.is_punct ")")).leads hnls
  | .reference name _, _, h => by
      simp only [Expr.links, lays_free, lays_nil] at h
      obtain ⟨nls, _, hnls, rfl, rfl⟩ := h
      exact (Spells.reference name).leads hnls
  | .assign name _ value _, _, h => by
      simp only [Expr.links, lays_free] at h
      obtain ⟨nls, _, hnls, ⟨nls', vs, hnls', hvs, rfl⟩, rfl⟩ := h
      have := Spells.assign (.reference name) hnls' (Word.is_punct "=") (value.spells_of_lays hvs)
      exact this.leads hnls
  | .call callee args _, _, h => by
      simp only [Expr.links, lays_append, lays_glued, lays_free, lays_nil] at h
      obtain ⟨us, _, hus, ⟨_, ⟨vs, _, hvs, ⟨nls, _, hnls, rfl, rfl⟩, rfl⟩, rfl⟩, rfl⟩ := h
      rw [← List.append_assoc vs]
      exact .call (callee.spells_of_lays hus) (Word.is_punct "(")
        (Expr.spells_of_argumentLays args hvs) hnls (Word.is_punct ")")

/-- Every layout of their links spells arguments. -/
theorem Expr.spells_of_argumentLays : (es : List (Expr Unit)) → {ws : List Word} →
    Lays (Expr.argumentLinks es) ws → Spells (.args es) ws
  | [], _, h => by
      rw [lays_nil.1 h]
      exact .noArgs
  | [e], _, h => .oneArg (e.spells_of_lays h)
  | e :: e' :: es, _, h => by
      simp only [Expr.argumentLinks, lays_append, lays_free] at h
      obtain ⟨us, _, hus, ⟨nls, vs, hnls, hvs, rfl⟩, rfl⟩ := h
      rw [← List.append_assoc]
      exact .moreArgs (e.spells_of_lays hus) hnls (Word.is_punct ",")
        (Expr.spells_of_argumentLays (e' :: es) hvs)

end

/-! ## Links of statements -/

/-- The links of the words of names, with a comma between two of them. -/
def parameterLinks : List String → List Link
  | [] => []
  | [name] => [.free (.symbol name)]
  | name :: names => .free (.symbol name) :: .free (.punct ",") :: parameterLinks names

/-- The links of the words of a condition in parentheses. -/
def conditionLinks (cond : Expr Unit) : List Link :=
  .free (.punct "(") :: (cond.links ++ [.free (.punct ")")])

/-- The links of the words of a clause, which may be absent, and the mark that ends it. -/
def clauseLinks (mark : String) (clause : Option (Expr Unit)) : List Link :=
  clause.elim [] Expr.links ++ [.free (.punct mark)]

/-- The links of the words of a phrase.  A loop with clauses has the tree of the statements
that it stands for, so a tree can have links in more than one way. -/
inductive Links : StmtPhrase → List Link → Prop where
  /-- An expression. -/
  | expression {e : Expr Unit} :
      Links (.stmt false (.expression e ())) (e.links ++ [.free (.punct ";")])
  /-- The declaration of a variable. -/
  | declare {name : String} :
      Links (.stmt false (.declare name none ()))
        [.free (.keyword "var"), .free (.symbol name), .free (.punct ";")]
  /-- The declaration of a variable with a value. -/
  | initialise {name : String} {e : Expr Unit} :
      Links (.stmt false (.declare name (some e) ()))
        (.free (.keyword "var") :: .free (.symbol name) :: ⟨.punct "=", true⟩ ::
          (e.links ++ [.free (.punct ";")]))
  /-- A block. -/
  | block {ss : List (Stmt Unit)} {ls : List Link} :
      Links (.body ss) ls →
      Links (.stmt false (.block ss ()))
        (.free (.punct "\x7b") :: (ls ++ [.free (.punct "\x7d")]))
  /-- A conditional without `else`. -/
  | branch {o : Bool} {c : Expr Unit} {t : Stmt Unit} {ls : List Link} :
      Links (.stmt o t) ls → t.isVariable = false →
      Links (.stmt true (.branch c t none ()))
        (.free (.keyword "if") :: (conditionLinks c ++ ls))
  /-- A conditional with `else`. -/
  | branchElse {o : Bool} {c : Expr Unit} {t e : Stmt Unit} {ls ms : List Link} :
      Links (.stmt false t) ls → t.isVariable = false → Links (.stmt o e) ms →
      e.isVariable = false →
      Links (.stmt o (.branch c t (some e) ()))
        (.free (.keyword "if") :: (conditionLinks c ++ (ls ++ .free (.keyword "else") :: ms)))
  /-- A loop. -/
  | loop {o : Bool} {c : Expr Unit} {b : Stmt Unit} {ls : List Link} :
      Links (.stmt o b) ls → b.isVariable = false →
      Links (.stmt o (.loop c b ())) (.free (.keyword "while") :: (conditionLinks c ++ ls))
  /-- A loop with clauses. -/
  | forLoop {o : Bool} {first : Option (Stmt Unit)} {cond last : Option (Expr Unit)}
      {b : Stmt Unit} {fs ls : List Link} :
      Links (.first first) fs → Links (.stmt o b) ls → b.isVariable = false →
      Links (.stmt o (lowerFor first cond last b))
        (.free (.keyword "for") :: .free (.punct "(") ::
          (fs ++ (clauseLinks ";" cond ++ (clauseLinks ")" last ++ ls))))
  /-- The declaration of a function. -/
  | function {name : String} {params : List String} {ss : List (Stmt Unit)} {ls : List Link} :
      Links (.body ss) ls →
      Links (.stmt false (.function name params ss ()))
        (.free (.keyword "fun") :: .free (.symbol name) :: .free (.punct "(") ::
          (parameterLinks params ++ .free (.punct ")") :: .free (.punct "\x7b") ::
            (ls ++ [.free (.punct "\x7d")])))
  /-- A `return`. -/
  | ret {value : Option (Expr Unit)} :
      Links (.stmt false (.ret value ())) (.free (.keyword "return") :: clauseLinks ";" value)
  /-- An empty body. -/
  | nil : Links (.body []) []
  /-- Another statement in front of a body. -/
  | cons {o : Bool} {s : Stmt Unit} {ss : List (Stmt Unit)} {ls ms : List Link} :
      Links (.stmt o s) ls → Links (.body ss) ms → Links (.body (s :: ss)) (ls ++ ms)
  /-- No first clause. -/
  | noFirst : Links (.first none) [.free (.punct ";")]
  /-- A first clause. -/
  | first {s : Stmt Unit} {ls : List Link} :
      Links (.stmt false s) ls → s.isSimple = true → Links (.first (some s)) ls

/-- A statement starts with a word that is not glued. -/
theorem Links.exists_eq {o : Bool} {s : Stmt Unit} {ls : List Link} (h : Links (.stmt o s) ls) :
    ∃ w ms, ls = .free w :: ms := by
  cases h with
  | @expression e =>
    obtain ⟨w, ms, hlinks⟩ := e.exists_links_eq
    exact ⟨w, _, by rw [hlinks, List.cons_append]⟩
  | _ => exact ⟨_, _, rfl⟩

/-! ### What spells a statement -/

theorem SpellsName.lays {name : String} {ws : List Word} (h : SpellsName name ws)
    {ls : List Link} {vs : List Word} (hvs : Lays ls vs) :
    Lays (.free (.symbol name) :: ls) (ws ++ vs) := by
  obtain ⟨hnls⟩ := h
  rw [List.append_assoc]
  exact .free hnls hvs

theorem lays_parameters {names : List String} {ws : List Word}
    (h : Separated SpellsName names ws) (hw : AllLegible ws) :
    Lays (parameterLinks names) ws := by
  induction h with
  | none => exact .nil
  | @one name ws hn =>
    rw [← List.append_nil ws]
    exact hn.lays .nil
  | more hn hnls hcomma _ ih =>
    simp only [allLegible_cons, allLegible_append] at hw
    obtain ⟨-, hc, hvs⟩ := hw
    obtain rfl := hc.eq_punct hcomma (by decide)
    rw [List.append_assoc]
    exact hn.lays (.free hnls (ih hvs))

theorem SpellsCondition.lays {c : Expr Unit} {ws : List Word} (h : SpellsCondition c ws)
    (hw : AllLegible ws) : Lays (conditionLinks c) ws := by
  obtain ⟨hnls₁, hopen, he, hnls₂, hclose⟩ := h
  simp only [allLegible_cons, allLegible_append] at hw
  obtain ⟨-, ho, ⟨hws, -⟩, hc, -⟩ := hw
  obtain rfl := ho.eq_punct hopen (by decide)
  obtain rfl := hc.eq_punct hclose (by decide)
  rw [List.append_assoc]
  exact .free hnls₁ ((he.lays hws).append (.free hnls₂ .nil))

theorem SpellsClause.lays {mark : String} {clause : Option (Expr Unit)} {ws : List Word}
    (h : SpellsClause mark clause ws) (hw : AllLegible ws)
    (hmark : mark ∉ Tables.quill.keywords) : Lays (clauseLinks mark clause) ws := by
  cases h with
  | none hnls hm =>
    simp only [allLegible_cons, allLegible_append] at hw
    obtain rfl := hw.2.1.eq_punct hm hmark
    exact .free hnls .nil
  | some he hnls hm =>
    simp only [allLegible_cons, allLegible_append] at hw
    obtain ⟨⟨hws, -⟩, hc, -⟩ := hw
    obtain rfl := hc.eq_punct hm hmark
    rw [List.append_assoc]
    exact (he.lays hws).append (.free hnls .nil)

/-- What spells a phrase is a layout of links that the phrase has. -/
theorem SpellsStmt.exists_links {p : StmtPhrase} {ws : List Word} (h : SpellsStmt p ws)
    (hw : AllLegible ws) : ∃ ls, Links p ls ∧ Lays ls ws := by
  induction h with
  | lead hnl _ ih =>
    obtain ⟨ls, hlinks, hlays⟩ := ih (allLegible_cons.1 hw).2
    obtain ⟨w, ms, rfl⟩ := hlinks.exists_eq
    exact ⟨_, hlinks, hlays.lead hnl⟩
  | expression he hnls hsemi =>
    simp only [allLegible_cons, allLegible_append] at hw
    obtain ⟨⟨hws, -⟩, hs, -⟩ := hw
    obtain rfl := hs.eq_punct hsemi (by decide)
    refine ⟨_, .expression, ?_⟩
    rw [List.append_assoc]
    exact (he.lays hws).append (.free hnls .nil)
  | declare hkw hn hnls hsemi =>
    simp only [allLegible_cons, allLegible_append] at hw
    obtain ⟨hk, ⟨-, -⟩, hs, -⟩ := hw
    obtain rfl := hk.eq_keyword hkw (by decide)
    obtain rfl := hs.eq_punct hsemi (by decide)
    refine ⟨_, .declare, ?_⟩
    rw [List.append_assoc]
    exact .next (hn.lays (.free hnls .nil))
  | initialise hkw hn heq he hnls hsemi =>
    simp only [allLegible_cons, allLegible_append] at hw
    obtain ⟨hk, -, hq, ⟨hws, -⟩, hs, -⟩ := hw
    obtain rfl := hk.eq_keyword hkw (by decide)
    obtain rfl := hq.eq_punct heq (by decide)
    obtain rfl := hs.eq_punct hsemi (by decide)
    refine ⟨_, .initialise, ?_⟩
    rw [List.append_assoc]
    exact .next (hn.lays (.glued ((he.lays hws).append (.free hnls .nil))))
  | block hopen _ hnls hclose ih =>
    simp only [allLegible_cons, allLegible_append] at hw
    obtain ⟨ho, ⟨hws, -⟩, hc, -⟩ := hw
    obtain rfl := ho.eq_punct hopen (by decide)
    obtain rfl := hc.eq_punct hclose (by decide)
    obtain ⟨ls, hlinks, hlays⟩ := ih hws
    refine ⟨_, .block hlinks, ?_⟩
    rw [List.append_assoc]
    exact .next (hlays.append (.free hnls .nil))
  | branch hkw hc _ hvar ih =>
    simp only [allLegible_cons, allLegible_append] at hw
    obtain ⟨hk, hcs, hws⟩ := hw
    obtain rfl := hk.eq_keyword hkw (by decide)
    obtain ⟨ls, hlinks, hlays⟩ := ih hws
    exact ⟨_, .branch hlinks hvar, .next ((hc.lays hcs).append hlays)⟩
  | branchElse hkw hc _ hvar hnls hels _ hvar' iht ihe =>
    simp only [allLegible_cons, allLegible_append] at hw
    obtain ⟨hk, ⟨⟨hcs, hws⟩, -⟩, hl, hvs⟩ := hw
    obtain rfl := hk.eq_keyword hkw (by decide)
    obtain rfl := hl.eq_keyword hels (by decide)
    obtain ⟨ls, hlinks, hlays⟩ := iht hws
    obtain ⟨ms, hlinks', hlays'⟩ := ihe hvs
    refine ⟨_, .branchElse hlinks hvar hlinks' hvar', ?_⟩
    rw [List.append_assoc, List.append_assoc]
    exact .next ((hc.lays hcs).append (hlays.append (.free hnls hlays')))
  | loop hkw hc _ hvar ih =>
    simp only [allLegible_cons, allLegible_append] at hw
    obtain ⟨hk, hcs, hws⟩ := hw
    obtain rfl := hk.eq_keyword hkw (by decide)
    obtain ⟨ls, hlinks, hlays⟩ := ih hws
    exact ⟨_, .loop hlinks hvar, .next ((hc.lays hcs).append hlays)⟩
  | forLoop hkw hnls hopen _ hc hl _ hvar ihf ihb =>
    simp only [allLegible_cons, allLegible_append] at hw
    obtain ⟨hk, -, ho, ⟨⟨hfs, hcs⟩, hls⟩, hws⟩ := hw
    obtain rfl := hk.eq_keyword hkw (by decide)
    obtain rfl := ho.eq_punct hopen (by decide)
    obtain ⟨fs, hfirst, hlays⟩ := ihf hfs
    obtain ⟨ls, hbody, hlays'⟩ := ihb hws
    refine ⟨_, .forLoop hfirst hbody hvar, ?_⟩
    simp only [List.append_assoc]
    exact .next (.free hnls (hlays.append ((hc.lays hcs (by decide)).append
      ((hl.lays hls (by decide)).append hlays'))))
  | function hkw hn hnls₁ hopen hps hnls₂ hclose hnls₃ hlb _ hnls₄ hrb ih =>
    simp only [allLegible_cons, allLegible_append] at hw
    obtain ⟨hk, ⟨-, -⟩, ho, ⟨hpws, -⟩, hc, -, hl, ⟨hws, -⟩, hr, -⟩ := hw
    obtain rfl := hk.eq_keyword hkw (by decide)
    obtain rfl := ho.eq_punct hopen (by decide)
    obtain rfl := hc.eq_punct hclose (by decide)
    obtain rfl := hl.eq_punct hlb (by decide)
    obtain rfl := hr.eq_punct hrb (by decide)
    obtain ⟨ls, hlinks, hlays⟩ := ih hws
    refine ⟨_, .function hlinks, ?_⟩
    simp only [List.append_assoc]
    exact .next (hn.lays (.free hnls₁ ((lays_parameters hps hpws).append
      (.free hnls₂ (.free hnls₃ (hlays.append (.free hnls₄ .nil)))))))
  | ret hkw hv =>
    rw [allLegible_cons] at hw
    obtain rfl := hw.1.eq_keyword hkw (by decide)
    exact ⟨_, .ret, .next (hv.lays hw.2 (by decide))⟩
  | nil => exact ⟨[], .nil, .nil⟩
  | cons _ _ ih ihs =>
    simp only [allLegible_append] at hw
    obtain ⟨ls, hlinks, hlays⟩ := ih hw.1
    obtain ⟨ms, hlinks', hlays'⟩ := ihs hw.2
    exact ⟨_, .cons hlinks hlinks', hlays.append hlays'⟩
  | noFirst hnls hsemi =>
    simp only [allLegible_cons, allLegible_append] at hw
    obtain rfl := hw.2.1.eq_punct hsemi (by decide)
    exact ⟨_, .noFirst, .free hnls .nil⟩
  | first _ hsimple ih =>
    obtain ⟨ls, hlinks, hlays⟩ := ih hw
    exact ⟨ls, .first hlinks hsimple, hlays⟩

/-! ### What a layout spells -/

theorem lays_name {name : String} {ls : List Link} {ws : List Word}
    (h : Lays (.free (.symbol name) :: ls) ws) :
    ∃ ns vs, SpellsName name ns ∧ Lays ls vs ∧ ws = ns ++ vs := by
  obtain ⟨nls, vs, hnls, hvs, rfl⟩ := lays_free.1 h
  exact ⟨nls ++ [.symbol name], vs, .mk hnls, hvs, by simp⟩

theorem separated_of_lays {names : List String} {ws : List Word}
    (h : Lays (parameterLinks names) ws) : Separated SpellsName names ws := by
  induction names generalizing ws with
  | nil =>
    rw [lays_nil.1 h]
    exact .none
  | cons name names ih =>
    cases names with
    | nil =>
      obtain ⟨ns, vs, hns, hvs, rfl⟩ := lays_name h
      rw [lays_nil.1 hvs, List.append_nil]
      exact .one hns
    | cons name' names =>
      obtain ⟨ns, _, hns, hrest, rfl⟩ := lays_name h
      obtain ⟨nls, vs, hnls, hvs, rfl⟩ := lays_free.1 hrest
      rw [← List.append_assoc]
      exact .more hns hnls (Word.is_punct ",") (ih hvs)

theorem spellsCondition_of_lays {c : Expr Unit} {ws : List Word}
    (h : Lays (conditionLinks c) ws) : SpellsCondition c ws := by
  simp only [conditionLinks, lays_free, lays_append, lays_nil] at h
  obtain ⟨nls, _, hnls, ⟨us, _, hus, ⟨nls', _, hnls', rfl, rfl⟩, rfl⟩, rfl⟩ := h
  rw [← List.append_assoc us]
  exact .mk hnls (Word.is_punct "(") (c.spells_of_lays hus) hnls' (Word.is_punct ")")

theorem spellsClause_of_lays {mark : String} {clause : Option (Expr Unit)} {ws : List Word}
    (h : Lays (clauseLinks mark clause) ws) : SpellsClause mark clause ws := by
  cases clause with
  | none =>
    simp only [clauseLinks, Option.elim_none, List.nil_append, lays_free, lays_nil] at h
    obtain ⟨nls, _, hnls, rfl, rfl⟩ := h
    exact .none hnls (Word.is_punct mark)
  | some e =>
    simp only [clauseLinks, Option.elim_some, lays_append, lays_free, lays_nil] at h
    obtain ⟨us, _, hus, ⟨nls, _, hnls, rfl, rfl⟩, rfl⟩ := h
    rw [← List.append_assoc]
    exact .some (e.spells_of_lays hus) hnls (Word.is_punct mark)

/-- Every layout of links that a phrase has spells the phrase. -/
theorem Links.spells {p : StmtPhrase} {ls : List Link} (h : Links p ls) {ws : List Word}
    (hws : Lays ls ws) : SpellsStmt p ws := by
  induction h generalizing ws with
  | @expression e =>
    simp only [lays_append, lays_free, lays_nil] at hws
    obtain ⟨us, _, hus, ⟨nls, _, hnls, rfl, rfl⟩, rfl⟩ := hws
    rw [← List.append_assoc]
    exact .expression (e.spells_of_lays hus) hnls (Word.is_punct ";")
  | @declare name =>
    obtain ⟨nls, _, hnls, hname, rfl⟩ := lays_free.1 hws
    obtain ⟨ns, _, hns, hrest, rfl⟩ := lays_name hname
    simp only [lays_free, lays_nil] at hrest
    obtain ⟨nls', _, hnls', rfl, rfl⟩ := hrest
    rw [← List.append_assoc ns]
    exact (SpellsStmt.declare (Word.is_keyword "var") hns hnls' (Word.is_punct ";")).leads hnls
  | @initialise name e =>
    obtain ⟨nls, _, hnls, hname, rfl⟩ := lays_free.1 hws
    obtain ⟨ns, _, hns, hrest, rfl⟩ := lays_name hname
    simp only [lays_glued, lays_append, lays_free, lays_nil] at hrest
    obtain ⟨_, ⟨us, _, hus, ⟨nls', _, hnls', rfl, rfl⟩, rfl⟩, rfl⟩ := hrest
    rw [← List.append_assoc us]
    exact (SpellsStmt.initialise (Word.is_keyword "var") hns (Word.is_punct "=")
      (e.spells_of_lays hus) hnls' (Word.is_punct ";")).leads hnls
  | block _ ih =>
    simp only [lays_append, lays_free, lays_nil] at hws
    obtain ⟨nls, _, hnls, ⟨us, _, hus, ⟨nls', _, hnls', rfl, rfl⟩, rfl⟩, rfl⟩ := hws
    rw [← List.append_assoc us]
    exact (SpellsStmt.block (Word.is_punct "\x7b") (ih hus) hnls'
      (Word.is_punct "\x7d")).leads hnls
  | branch _ hvar ih =>
    simp only [lays_append, lays_free] at hws
    obtain ⟨nls, _, hnls, ⟨cs, us, hcs, hus, rfl⟩, rfl⟩ := hws
    exact (SpellsStmt.branch (Word.is_keyword "if") (spellsCondition_of_lays hcs) (ih hus)
      hvar).leads hnls
  | branchElse _ hvar _ hvar' iht ihe =>
    simp only [lays_append, lays_free] at hws
    obtain ⟨nls, _, hnls, ⟨cs, _, hcs, ⟨us, _, hus, ⟨nls', vs, hnls', hvs, rfl⟩, rfl⟩, rfl⟩,
      rfl⟩ := hws
    rw [← List.append_assoc us, ← List.append_assoc cs, ← List.append_assoc cs]
    exact (SpellsStmt.branchElse (Word.is_keyword "if") (spellsCondition_of_lays hcs) (iht hus)
      hvar hnls' (Word.is_keyword "else") (ihe hvs) hvar').leads hnls
  | loop _ hvar ih =>
    simp only [lays_append, lays_free] at hws
    obtain ⟨nls, _, hnls, ⟨cs, us, hcs, hus, rfl⟩, rfl⟩ := hws
    exact (SpellsStmt.loop (Word.is_keyword "while") (spellsCondition_of_lays hcs) (ih hus)
      hvar).leads hnls
  | forLoop _ _ hvar ihf ihb =>
    simp only [lays_append, lays_free] at hws
    obtain ⟨nls, _, hnls, ⟨nls', _, hnls', ⟨fs, _, hfs, ⟨cs, _, hcs, ⟨us, vs, hus, hvs, rfl⟩,
      rfl⟩, rfl⟩, rfl⟩, rfl⟩ := hws
    rw [← List.append_assoc cs, ← List.append_assoc fs, ← List.append_assoc fs]
    exact (SpellsStmt.forLoop (Word.is_keyword "for") hnls' (Word.is_punct "(") (ihf hfs)
      (spellsClause_of_lays hcs) (spellsClause_of_lays hus) (ihb hvs) hvar).leads hnls
  | function _ ih =>
    obtain ⟨nls, _, hnls, hname, rfl⟩ := lays_free.1 hws
    obtain ⟨ns, _, hns, hrest, rfl⟩ := lays_name hname
    simp only [lays_append, lays_free, lays_nil] at hrest
    obtain ⟨nls₁, _, hnls₁, ⟨ps, _, hps, ⟨nls₂, _, hnls₂, ⟨nls₃, _, hnls₃,
      ⟨us, _, hus, ⟨nls₄, _, hnls₄, rfl, rfl⟩, rfl⟩, rfl⟩, rfl⟩, rfl⟩, rfl⟩ := hrest
    rw [← List.append_assoc us, ← List.append_assoc ps, ← List.append_assoc ns]
    exact (SpellsStmt.function (Word.is_keyword "fun") hns hnls₁ (Word.is_punct "(")
      (separated_of_lays hps) hnls₂ (Word.is_punct ")") hnls₃ (Word.is_punct "\x7b") (ih hus)
      hnls₄ (Word.is_punct "\x7d")).leads hnls
  | ret =>
    obtain ⟨nls, vs, hnls, hvs, rfl⟩ := lays_free.1 hws
    exact (SpellsStmt.ret (Word.is_keyword "return") (spellsClause_of_lays hvs)).leads hnls
  | nil =>
    rw [lays_nil.1 hws]
    exact .nil
  | cons _ _ ih ihs =>
    obtain ⟨us, vs, hus, hvs, rfl⟩ := lays_append.1 hws
    exact .cons (ih hus) (ihs hvs)
  | noFirst =>
    simp only [lays_free, lays_nil] at hws
    obtain ⟨nls, _, hnls, rfl, rfl⟩ := hws
    exact .noFirst hnls (Word.is_punct ";")
  | first _ hsimple ih => exact .first (ih hws) hsimple

end Scriptorium
