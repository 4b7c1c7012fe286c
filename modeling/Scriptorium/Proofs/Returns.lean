import Scriptorium.Proofs.FormattedRuns
import Scriptorium.Proofs.FrameGraph

/-!
# No `return` escapes

A `return` stands inside a function, and the call of the function ends it.  So a statement
that stands in no function never ends at one, whatever it calls and on whatever machine it
is carried out, and a list of such statements can be cut anywhere: the first part and then
the second one do what the whole does.

* `Step.Proceeds` — a computation that never ends at a `return`;
* `proceedsAll` — so it is with the statements whose tree has no `return` outside functions;
* `interpret_append` — statements that never end at a `return` can be cut into two parts;
* `Parsed.Resting` — the machines between the statements of a text;
* `parse_proceeds` — all of this holds for what is kept of any text.
-/

namespace Scriptorium

variable {α : Type} {code : Code} {fuel : Nat}

/-! ## Computations without a `return` -/

/-- On no machine does the computation end at a `return`. -/
def Step.Proceeds (x : Step Completion) : Prop := ∀ m v m', x m ≠ .done (.returned v) m'

namespace Step

theorem proceeds_pure : (pure .normal : Step Completion).Proceeds := nofun

theorem proceeds_exhausted : (exhausted : Step Completion).Proceeds := nofun

/-- What comes last decides. -/
theorem proceeds_bind {x : Step α} {f : α → Step Completion} (h : ∀ a, (f a).Proceeds) :
    (x >>= f).Proceeds := by
  intro m v m'
  show Step.bind x f m ≠ _
  unfold Step.bind
  cases x m with
  | done a m₁ => exact h a m₁ v m'
  | failed e m₁ => exact nofun
  | stuck => exact nofun
  | exhausted => exact nofun

/-- What is found is what the code holds. -/
theorem proceeds_found {held : Option α} {f : α → Step Completion}
    (h : ∀ a, held = some a → (f a).Proceeds) : (found held >>= f).Proceeds := by
  intro m v m'
  cases held with
  | none => exact nofun
  | some a => exact h a rfl m v m'

/-- What follows a computation without a `return` need not expect one. -/
theorem Proceeds.bind {x : Step Completion} {f : Completion → Step Completion}
    (hx : x.Proceeds) (hf : (f .normal).Proceeds) : (x >>= f).Proceeds := by
  intro m v m'
  have hxm := hx m
  show Step.bind x f m ≠ _
  unfold Step.bind
  cases h : x m with
  | done completion m₁ =>
    cases completion with
    | normal => exact hf m₁ v m'
    | returned value => exact absurd h (hxm value m₁)
  | failed e m₁ => exact nofun
  | stuck => exact nofun
  | exhausted => exact nofun

theorem Proceeds.inFrame {x : Step Completion} (hx : x.Proceeds) (f : FrameId) :
    (inFrame f x).Proceeds := by
  intro m v m'
  have hxm := hx { m with env := (m.env.enter f).2 }
  rw [inFrame_eq]
  cases h : x { m with env := (m.env.enter f).2 } with
  | done completion m₁ =>
    cases completion with
    | normal => exact nofun
    | returned value => exact absurd h (hxm value m₁)
  | failed e m₁ => exact nofun
  | stuck => exact nofun
  | exhausted => exact nofun

theorem Proceeds.inNewFrame {x : Step Completion} (hx : x.Proceeds) : (inNewFrame x).Proceeds :=
  fun m => hx.inFrame _ { m with env := (m.env.newFrame (some m.env.active)).2 }

end Step

open Step

/-! ## Statements outside functions -/

/-- With the bound `fuel`, what stands outside functions never ends at a `return`. -/
structure ProceedsAll (code : Code) (fuel : Nat) : Prop where
  execute : ∀ {id tree}, code.StmtAt id tree → tree.Shaped false →
    (execute code fuel id).Proceeds
  executeBlock : ∀ {body ids trees}, code.arena.stmtsIn? body = some ids →
    List.Forall₂ code.StmtAt ids trees → Stmt.ShapedAll false trees →
    (executeBlock code fuel body).Proceeds
  executeAll : ∀ {ids trees}, List.Forall₂ code.StmtAt ids trees →
    Stmt.ShapedAll false trees → (executeAll code fuel ids).Proceeds
  executeLoop : ∀ {cond body tree}, code.StmtAt body tree → tree.Shaped false →
    (executeLoop code fuel cond body).Proceeds

namespace ProceedsAll

variable (h : ProceedsAll code fuel)
include h

theorem execute_succ {id : StmtId} {tree : Stmt Unit} (htree : code.StmtAt id tree)
    (hshaped : tree.Shaped false) : (Scriptorium.execute code (fuel + 1) id).Proceeds := by
  rw [Scriptorium.execute]
  refine proceeds_found fun node hnode => ?_
  cases htree with
  | expression hid _ =>
    cases hid.symm.trans hnode
    exact proceeds_bind fun _ => proceeds_pure
  | declare hid _ _ =>
    cases hid.symm.trans hnode
    dsimp only
    split <;> exact proceeds_bind fun _ => proceeds_bind fun _ => proceeds_bind fun _ =>
      proceeds_pure
  | block hid hids hbody =>
    cases hid.symm.trans hnode
    exact (h.executeBlock hids hbody hshaped).inNewFrame
  | branch hid _ hthen =>
    cases hid.symm.trans hnode
    refine proceeds_bind fun v => proceeds_bind fun b => ?_
    cases b with
    | true => exact h.execute hthen hshaped.2.2
    | false => exact proceeds_pure
  | branchElse hid _ hthen helse =>
    cases hid.symm.trans hnode
    obtain ⟨-, -, hthenShaped, -, -, helseShaped⟩ := hshaped
    refine proceeds_bind fun v => proceeds_bind fun b => ?_
    cases b with
    | true => exact h.execute hthen hthenShaped
    | false => exact h.execute helse helseShaped
  | loop hid _ hbody =>
    cases hid.symm.trans hnode
    exact h.executeLoop hbody hshaped.2.2
  | function hid _ _ _ _ _ =>
    -- the body is not carried out where it is declared
    cases hid.symm.trans hnode
    exact proceeds_bind fun _ => proceeds_bind fun _ => proceeds_bind fun _ =>
      proceeds_bind fun _ => proceeds_bind fun _ => proceeds_pure
  | ret hid _ => exact absurd hshaped.1 Bool.false_ne_true

theorem executeBlock_succ {body : Slice StmtId} {ids : List StmtId} {trees : List (Stmt Unit)}
    (hids : code.arena.stmtsIn? body = some ids) (htrees : List.Forall₂ code.StmtAt ids trees)
    (hshaped : Stmt.ShapedAll false trees) :
    (Scriptorium.executeBlock code (fuel + 1) body).Proceeds := by
  rw [Scriptorium.executeBlock]
  refine proceeds_found fun ids' hids' => ?_
  cases hids.symm.trans hids'
  exact h.executeAll htrees hshaped

theorem executeAll_succ {ids : List StmtId} {trees : List (Stmt Unit)}
    (htrees : List.Forall₂ code.StmtAt ids trees) (hshaped : Stmt.ShapedAll false trees) :
    (Scriptorium.executeAll code (fuel + 1) ids).Proceeds := by
  cases htrees with
  | nil => exact proceeds_pure
  | cons htree htrees =>
    rw [Scriptorium.executeAll]
    exact (h.execute htree hshaped.1).bind (h.executeAll htrees hshaped.2)

theorem executeLoop_succ {cond : ExprId} {body : StmtId} {tree : Stmt Unit}
    (htree : code.StmtAt body tree) (hshaped : tree.Shaped false) :
    (Scriptorium.executeLoop code (fuel + 1) cond body).Proceeds := by
  rw [Scriptorium.executeLoop]
  refine proceeds_bind fun v => proceeds_bind fun b => ?_
  cases b with
  | true => exact (h.execute htree hshaped).inNewFrame.bind (h.executeLoop htree hshaped)
  | false => exact proceeds_pure

end ProceedsAll

/-- With every bound, what stands outside functions never ends at a `return`. -/
theorem proceedsAll (code : Code) (fuel : Nat) : ProceedsAll code fuel := by
  induction fuel with
  | zero =>
    exact ⟨fun _ _ => proceeds_exhausted, fun _ _ _ => proceeds_exhausted,
      fun _ _ => proceeds_exhausted, fun _ _ => proceeds_exhausted⟩
  | succ fuel ih =>
    exact ⟨ih.execute_succ, ih.executeBlock_succ, ih.executeAll_succ, ih.executeLoop_succ⟩

theorem proceeds_of_mem {ids : List StmtId} {trees : List (Stmt Unit)}
    (htrees : List.Forall₂ code.StmtAt ids trees) (hshaped : Stmt.ShapedAll false trees)
    {id : StmtId} (hid : id ∈ ids) : (execute code fuel id).Proceeds := by
  induction htrees with
  | nil => cases hid
  | cons htree _ ih =>
    rcases List.mem_cons.1 hid with rfl | hid
    · exact (proceedsAll code fuel).execute htree hshaped.1
    · exact ih hshaped.2 hid

/-! ## Programs in two parts -/

theorem Step.bind_assoc {β γ : Type} (x : Step α) (f : α → Step β) (g : β → Step γ) :
    (x >>= f) >>= g = x >>= fun a => f a >>= g := by
  funext m
  show Step.bind (Step.bind x f) g m = Step.bind x (fun a => Step.bind (f a) g) m
  unfold Step.bind
  cases x m <;> rfl

/-- Statements that never end at a `return`, and others after them, are carried out in two
parts as in one. -/
theorem interpret_append {first : List StmtId} (h : ∀ id ∈ first, (execute code fuel id).Proceeds)
    (rest : List StmtId) :
    interpret code fuel (first ++ rest) =
      interpret code fuel first >>= fun _ => interpret code fuel rest := by
  induction first with
  | nil => rfl
  | cons id ids ih =>
    have hid := h id List.mem_cons_self
    rw [List.cons_append, interpret, interpret, Step.bind_assoc,
      ih fun id hmem => h id (List.mem_cons_of_mem _ hmem)]
    funext m
    show Step.bind _ _ m = Step.bind _ _ m
    unfold Step.bind
    cases hrun : execute code fuel id m with
    | done completion m₁ =>
      cases completion with
      | normal => rfl
      | returned value => exact absurd hrun (hid m value m₁)
    | failed e m₁ => rfl
    | stuck => rfl
    | exhausted => rfl

/-! ## The statements of a text -/

/-- The machines on which a statement of the text can come next: those at the start of a run,
and those that a statement has left, be it with an error. -/
inductive Parsed.Resting (p : Parsed) : Machine → Prop where
  /-- Nothing was carried out. -/
  | start (limit : Option Nat) (console : Console) (clock : Clock) :
      Resting p (.start limit console clock)
  /-- A statement has ended. -/
  | after {m m' : Machine} {id : StmtId} :
      Resting p m → id ∈ p.module → Task.Ends p.code (.execute id) m m' → Resting p m'

/-- Between statements the machine is sound and no calls are under way. -/
theorem Parsed.Resting.sound {p : Parsed} {m : Machine} (hp : p.Sound) (h : p.Resting m) :
    m.Sound p.code ∧ m.calls.capture = [] := by
  induction h with
  | start limit console clock => exact ⟨Machine.sound_start _ _ _, rfl⟩
  | @after m m' id _ hid hends ih =>
    obtain ⟨hm, hcalls⟩ := ih
    obtain ⟨node, hnode⟩ := hp.module id hid
    refine ⟨hends.sound hm ⟨node, hnode, ?_⟩, ?_⟩
    · rw [hcalls]
      trivial
    · rw [hends.restored.calls, hcalls]

/-- A statement of a text that is carried out between statements finds what it looks up. -/
theorem Parsed.Resting.execute_ne_stuck {p : Parsed} {m : Machine} {id : StmtId} (hp : p.Sound)
    (h : p.Resting m) (hid : id ∈ p.module) (fuel : Nat) : execute p.code fuel id m ≠ .stuck := by
  intro hstuck
  obtain ⟨hm, hcalls⟩ := h.sound hp
  obtain ⟨node, hnode⟩ := hp.module id hid
  have ht : (Task.execute id).Sound p.code m := by
    refine ⟨node, hnode, ?_⟩
    rw [hcalls]
    trivial
  have htraced := (tracesAll p.code fuel).execute id m
  rw [hstuck] at htraced
  obtain ⟨t, m', hvisits, hnot⟩ := htraced
  exact hnot ((hvisits.sound hp.code hm ht).2.grounded hp.code)

/-- For every text, with syntax errors or without: no statement that is kept of it ends at a
`return`, on whatever machine it is carried out.  Where one statement can follow another, it
ends normally or with an error, unless it needs more steps than it was given.  And wherever
the statements are cut into two lists, carrying out the first and, if that succeeds, the
second on what it left does what carrying out all of them does. -/
theorem parse_proceeds (source : String) :
    let p := parse source
    (∀ id ∈ p.module, ∀ fuel m v m', execute p.code fuel id m ≠ .done (.returned v) m') ∧
    (∀ id ∈ p.module, ∀ m, p.Resting m → ∀ fuel, execute p.code fuel id m ≠ .exhausted →
      (∃ m', execute p.code fuel id m = .done .normal m') ∨
        ∃ e m', execute p.code fuel id m = .failed e m') ∧
    ∀ first rest, p.module = first ++ rest → ∀ fuel,
      interpret p.code fuel p.module =
        interpret p.code fuel first >>= fun _ => interpret p.code fuel rest := by
  intro p
  obtain ⟨trees, htrees, hshaped, -⟩ := parse_sound source
  have hproceeds : ∀ id ∈ p.module, ∀ fuel, (execute p.code fuel id).Proceeds :=
    fun id hid fuel => proceeds_of_mem htrees.stmtAt hshaped hid
  refine ⟨fun id hid fuel => hproceeds id hid fuel, ?_, ?_⟩
  · intro id hid m hm fuel hfuel
    have hstuck := hm.execute_ne_stuck (sound_parse source) hid fuel
    cases hrun : execute p.code fuel id m with
    | done completion m' =>
      cases completion with
      | normal => exact .inl ⟨m', rfl⟩
      | returned v => exact absurd hrun (hproceeds id hid fuel m v m')
    | failed e m' => exact .inr ⟨e, m', rfl⟩
    | stuck => exact absurd hrun hstuck
    | exhausted => exact absurd hrun hfuel
  · intro first rest hmodule fuel
    rw [hmodule]
    refine interpret_append (fun id hid => hproceeds id ?_ fuel) rest
    rw [hmodule]
    exact List.mem_append_left _ hid

/-- Outside functions a `return` is an error, before which two statements are kept. -/
example : (parse "fun f() \x7b return 1; \x7d f(); return 2;").failure ≠ none ∧
    (parse "fun f() \x7b return 1; \x7d f(); return 2;").module.length = 2 := by
  decide +kernel

end Scriptorium
