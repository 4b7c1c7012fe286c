import Scriptorium.Proofs.TaskParts

/-!
# Calls that print

Only the functions `print` and `println` change the console, and each call of one of them adds
its text.  A computation that ends has therefore printed the texts of the print calls that it
came to, one after the other.  The rules here say so of a computation from what is known of its
parts.

* `PrintCall` — a call of a function that prints, with its text and the machine that it finds;
* `Printing` — from one machine to another, exactly these calls print;
* `Outcome.Prints` — where a computation ends, the calls that printed are those to which the
  given tasks come, with a rule for each way to make a computation.
-/

namespace Scriptorium

variable {α β : Type} {code : Code}

/-! ## Consoles -/

namespace Console

@[simp] theorem print_empty (c : Console) : c.print "" = c := by
  cases c <;> simp [print]

theorem print_print (c : Console) (text text' : String) :
    (c.print text).print text' = c.print (text ++ text') := by
  cases c <;> simp [print, String.append_assoc]

theorem println_eq (c : Console) (text : String) : c.println text = c.print (text ++ "\n") :=
  print_print c text "\n"

/-- Printing texts one after the other prints them joined. -/
theorem foldl_print (c : Console) (write : Value → String) (values : List Value) :
    values.foldl (fun c v => c.print (write v)) c = c.print (String.join (values.map write)) := by
  induction values generalizing c with
  | nil => simp
  | cons v values ih => rw [List.foldl_cons, ih, print_print, List.map_cons, String.join_cons]

end Console

/-! ## Print calls -/

/-- A call of a provided function, with the machine on which it is made. -/
structure PrintCall where
  /-- The called function. -/
  f : NativeFunction
  /-- The values of the arguments. -/
  args : List Value
  /-- The place of the call. -/
  span : Span
  /-- The machine that the call finds. -/
  machine : Machine

namespace PrintCall

/-- The call as a task. -/
def task (c : PrintCall) : Task := .call (.native c.f) c.args c.span

/-- The text of a call: its arguments as they are displayed, after `println` each with a line
break. -/
def text (c : PrintCall) : String :=
  String.join (c.args.map fun v =>
    if c.f.action = .println then v.display ++ "\n" else v.display)

/-- The called function prints, and it is called with the right number of arguments. -/
structure Valid (c : PrintCall) : Prop where
  prints : c.f.action = .print ∨ c.f.action = .println
  arity : c.args.length = c.f.arity

/-- The task, carried out on the machine, comes to the call. -/
structure Executed (code : Code) (t : Task) (m : Machine) (c : PrintCall) : Prop where
  valid : c.Valid
  visits : Visits code t m c.task c.machine

/-- The first call has ended before the second one is made: what there was at its end, frames
and printed text, the second call finds. -/
def Precedes (code : Code) (c d : PrintCall) : Prop :=
  ∃ p, c.task.Ends code c.machine p ∧ p.env.Extends d.machine.env ∧
    ∃ text, d.machine.console = p.console.print text

/-- The machine after the call. -/
def after (c : PrintCall) : Machine :=
  { c.machine with console := c.machine.console.print c.text }

theorem call_eq {c : PrintCall} (h : c.Valid) (fuel : Nat) :
    call code (fuel + 1) (.native c.f) c.args c.span c.machine = .done .zero c.after := by
  unfold call
  simp only [Value.arity?, h.arity, ne_eq, not_true_eq_false, if_false]
  rcases h.prints with hprint | hprintln
  · simp only [hprint, Step.native, Step.printAll, after, text, Console.foldl_print,
      reduceCtorEq, if_false]
  · simp only [hprintln, Step.native, Step.printAll, after, text, Console.println_eq,
      Console.foldl_print, if_true]

/-- A print call ends, and its text has been printed. -/
theorem ends {c : PrintCall} (h : c.Valid) : c.task.Ends code c.machine c.after := by
  refine ⟨1, ?_⟩
  show (call code 1 (.native c.f) c.args c.span c.machine).machine? = some c.after
  rw [call_eq h]
  rfl

end PrintCall

/-! ## Sequences of print calls -/

/-- Nothing is printed from the first machine to the second, and no frame is lost. -/
structure Machine.Quiet (m m' : Machine) : Prop where
  console : m'.console = m.console
  frames : m.env.Extends m'.env

namespace Machine.Quiet

variable {m m' m'' : Machine}

theorem refl (m : Machine) : m.Quiet m := ⟨rfl, .refl _⟩

theorem trans (h : m.Quiet m') (h' : m'.Quiet m'') : m.Quiet m'' :=
  ⟨h'.console.trans h.console, h.frames.trans h'.frames⟩

theorem nested (m : Machine) : m.Quiet m.nested := ⟨rfl, m.env.extends_newFrame _⟩

theorem called (m : Machine) (f : UserFunction) (args : List Value) (span : Span) :
    m.Quiet (m.called f args span) :=
  ⟨rfl, (m.env.extends_newFrame _).trans
    ((Environment.extends_defineAll _ _ _).trans (Environment.extends_restore _ _))⟩

end Machine.Quiet

/-- From the first machine to the second, exactly the listed calls print, one after the
other. -/
inductive Printing (code : Code) : Machine → List PrintCall → Machine → Prop where
  /-- Nothing is printed. -/
  | nothing {m m' : Machine} : m.Quiet m' → Printing code m [] m'
  /-- A call prints, and after it the others. -/
  | call {c : PrintCall} {calls : List PrintCall} {m m' : Machine} :
      c.Valid → m.Quiet c.machine → Printing code c.after calls m' →
      Printing code m (c :: calls) m'

namespace Printing

variable {m m' m'' : Machine} {calls calls' : List PrintCall}

theorem after_quiet (h : m.Quiet m') (h' : Printing code m' calls m'') :
    Printing code m calls m'' := by
  cases h' with
  | nothing hquiet => exact .nothing (h.trans hquiet)
  | call hc hquiet hrest => exact .call hc (h.trans hquiet) hrest

theorem append (h : Printing code m calls m') (h' : Printing code m' calls' m'') :
    Printing code m (calls ++ calls') m'' := by
  induction h with
  | nothing hquiet => exact h'.after_quiet hquiet
  | call hc hquiet _ ih => exact .call hc hquiet (ih h')

theorem before_quiet (h : Printing code m calls m') (h' : m'.Quiet m'') :
    Printing code m calls m'' := by
  have hall := h.append (.nothing h')
  rwa [List.append_nil] at hall

/-- The console at the end: the texts of the calls have been printed. -/
theorem console_eq (h : Printing code m calls m') :
    m'.console = m.console.print (String.join (calls.map PrintCall.text)) := by
  induction h with
  | nothing hquiet => simp [hquiet.console]
  | @call c calls m m' hc hquiet hrest ih =>
    rw [ih, PrintCall.after, hquiet.console, Console.print_print, List.map_cons,
      String.join_cons]

theorem extends_frames (h : Printing code m calls m') : m.env.Extends m'.env := by
  induction h with
  | nothing hquiet => exact hquiet.frames
  | call hc hquiet _ ih => exact hquiet.frames.trans ih

/-- The calls before one of the calls print up to the machine that it finds. -/
theorem upTo {c : PrintCall} (h : Printing code m (calls ++ c :: calls') m') :
    Printing code m calls c.machine := by
  induction calls generalizing m with
  | nil =>
    cases h with
    | call _ hquiet _ => exact .nothing hquiet
  | cons d calls ih =>
    cases h with
    | call hd hquiet hrest => exact .call hd hquiet (ih hrest)

/-- Each of the calls has ended before the next ones are made. -/
theorem pairwise (h : Printing code m calls m') : calls.Pairwise (PrintCall.Precedes code) := by
  induction h with
  | nothing => exact .nil
  | @call c calls m m' hc hquiet hrest ih =>
    refine .cons (fun d hd => ?_) ih
    obtain ⟨before, after, rfl⟩ := List.append_of_mem hd
    have hupTo := hrest.upTo
    exact ⟨c.after, PrintCall.ends hc, hupTo.extends_frames, _, hupTo.console_eq⟩

end Printing

/-- Only calls of native functions can print. -/
def Task.isNativeCall : Task → Bool
  | .call (.native _) _ _ => true
  | _ => false

/-! ## What a computation prints -/

/-- Where the computation that began on the machine ends, the calls that printed are exactly
those to which the tasks come. -/
def Outcome.Prints (code : Code) (S : Tasks) (m : Machine) (o : Outcome α) : Prop :=
  ∀ m', o.machine? = some m' → ∃ calls, Printing code m calls m' ∧
    ∀ c : PrintCall, c ∈ calls ↔ ∃ u n, S u n ∧ c.Executed code u n

/-- The computation prints nothing and loses no frame. -/
def Step.Silent (x : Step α) : Prop := ∀ m, (x m).Leaves m.Quiet

namespace Step

/-- A computation that restores is silent if it leaves the console as it is. -/
theorem Restores.silent {x : Step α} (hx : x.Restores)
    (hconsole : ∀ m, (x m).Leaves fun m' => m'.console = m.console) : x.Silent := by
  intro m
  have hrestored := hx m
  have hkept := hconsole m
  cases h : x m with
  | done a m' =>
    rw [h] at hrestored hkept
    exact ⟨hkept, hrestored.frames⟩
  | failed e m' =>
    rw [h] at hrestored hkept
    exact ⟨hkept, hrestored.frames⟩
  | stuck => trivial
  | exhausted => trivial

theorem silent_pure (a : α) : (pure a : Step α).Silent := fun m => .refl m

theorem silent_fail (e : RunError) (span : Span) : (fail e span : Step α).Silent :=
  fun m => .refl m

theorem silent_found (held : Option α) : (found held).Silent := by
  intro m
  cases held with
  | none => trivial
  | some a => exact .refl m

theorem silent_ofExcept (result : Except RunError α) (span : Span) :
    (ofExcept result span).Silent := by
  cases result with
  | ok a => exact silent_pure a
  | error e => exact silent_fail e span

theorem silent_define (name : String) (value : Value) : (define name value).Silent :=
  (restores_define name value).silent fun _ => rfl

theorem silent_lookup (name : String) (span : Span) : (lookup name span).Silent := by
  refine (restores_lookup name span).silent fun m => ?_
  unfold lookup
  cases m.env.lookup name <;> rfl

theorem silent_assign (name : String) (value : Value) (span : Span) :
    (assign name value span).Silent := by
  refine (restores_assign name value span).silent fun m => ?_
  unfold assign
  cases m.env.resolve m.env.active name <;> rfl

theorem silent_newFunction (make : FrameId → Nat → UserFunction) : (newFunction make).Silent :=
  (restores_newFunction make).silent fun _ => rfl

theorem Silent.bind {x : Step α} {f : α → Step β} (hx : x.Silent) (hf : ∀ a, (f a).Silent) :
    (x >>= f).Silent := by
  intro m
  have hxm := hx m
  show Outcome.Leaves m.Quiet (Step.bind x f m)
  unfold Step.bind
  cases h : x m with
  | done a m₁ =>
    rw [h] at hxm
    exact (hf a m₁).imp fun m₂ h₂ => hxm.trans h₂
  | failed e m₁ =>
    rw [h] at hxm
    exact hxm
  | stuck => trivial
  | exhausted => trivial

theorem silent_failAt (e : RunError) (expr : ExprId) : (failAt code e expr : Step α).Silent :=
  (silent_found _).bind fun _ => silent_fail _ _

end Step

namespace Outcome.Prints

variable {S S' : Tasks} {m n : Machine} {o : Outcome α}

theorem exhausted : (Outcome.exhausted : Outcome α).Prints code S m := fun _ h => nomatch h

theorem stuck : (Outcome.stuck : Outcome α).Prints code S m := fun _ h => nomatch h

theorem congr (h : o.Prints code S m) (hS : ∀ u n, S u n ↔ S' u n) : o.Prints code S' m := by
  intro m' hm'
  obtain ⟨calls, hcalls, hmem⟩ := h m' hm'
  refine ⟨calls, hcalls, fun c => (hmem c).trans ?_⟩
  simp only [hS]

/-- What starts later and prints nothing before. -/
theorem after_quiet (h : o.Prints code S n) (hquiet : m.Quiet n) : o.Prints code S m := by
  intro m' hm'
  obtain ⟨calls, hcalls, hmem⟩ := h m' hm'
  exact ⟨calls, hcalls.after_quiet hquiet, hmem⟩

/-- A computation that prints nothing comes to no tasks. -/
theorem silent {x : Step α} (hx : x.Silent) (m : Machine) : (x m).Prints code .none m := by
  intro m' hm'
  refine ⟨[], .nothing ((hx m).of_machine? hm'), fun c => ?_⟩
  simp [Tasks.none]

theorem after (h : o.Prints code S m) {g : Machine → Machine}
    (hg : ∀ m : Machine, m.Quiet (g m)) :
    (o.after g).Prints code S m := by
  cases o with
  | done a m' =>
    rintro _ ⟨⟩
    obtain ⟨calls, hcalls, hmem⟩ := h m' rfl
    exact ⟨calls, hcalls.before_quiet (hg m'), hmem⟩
  | failed e m' =>
    rintro _ ⟨⟩
    obtain ⟨calls, hcalls, hmem⟩ := h m' rfl
    exact ⟨calls, hcalls.before_quiet (hg m'), hmem⟩
  | stuck => exact stuck
  | exhausted => exact exhausted

theorem inFrame {x : Step α} {f : FrameId}
    (h : (x { m with env := (m.env.enter f).2 }).Prints code S n) :
    (Step.inFrame f x m).Prints code S n := by
  rw [Step.inFrame_eq]
  exact h.after fun m' => ⟨rfl, Environment.extends_restore _ _⟩

theorem inNewFrame {x : Step α} (h : (x m.nested).Prints code S n) :
    (Step.inNewFrame x m).Prints code S n :=
  inFrame h

theorem given {p : Prop} (h : p → o.Prints code S m) (hnot : ¬ p → o.Prints code .none m) :
    o.Prints code (.given p S) m := by
  by_cases hp : p
  · exact (h hp).congr fun u n => by simp [Tasks.given, hp]
  · exact (hnot hp).congr fun u n => by simp [Tasks.given, Tasks.none, hp]

theorem held_none {S : β → Tasks} (h : o.Prints code .none m) :
    o.Prints code (.held Option.none S) m :=
  h.congr fun _ _ => ⟨False.elim, fun ⟨_, hb, _⟩ => nomatch hb⟩

theorem held_some {S : β → Tasks} {b : β} (h : o.Prints code (S b) m) :
    o.Prints code (.held (some b) S) m :=
  h.congr fun _ _ => ⟨fun hS => ⟨b, rfl, hS⟩, fun ⟨_, hb, hS⟩ => Option.some.inj hb ▸ hS⟩

theorem found_bind {held : Option α} {S : α → Tasks} {f : α → Step β}
    (h : ∀ a, held = some a → (f a m).Prints code (S a) m) :
    ((Step.found held >>= f) m).Prints code (.held held S) m := by
  cases held with
  | none => exact stuck
  | some a => exact held_some (h a rfl)

/-- Something silent after a computation. -/
theorem bind_silent {x : Step α} {f : α → Step β} (h : (x m).Prints code S n)
    (hf : ∀ a, (f a).Silent) : ((x >>= f) m).Prints code S n := by
  show Outcome.Prints code S n (Step.bind x f m)
  unfold Step.bind
  cases hx : x m with
  | done a m₁ =>
    intro m' hm'
    obtain ⟨calls, hcalls, hmem⟩ := h m₁ (by rw [hx]; rfl)
    exact ⟨calls, hcalls.before_quiet ((hf a m₁).of_machine? hm'), hmem⟩
  | failed e m₁ =>
    rw [hx] at h
    exact h
  | stuck => exact stuck
  | exhausted => exact exhausted

/-- One computation after the other.  The tasks of the second one are told by the result of
the first one, which is the same with every bound. -/
theorem bind {x : Nat → Step α}
    (hx : ∀ {fuel fuel'} limit, fuel ≤ fuel' → Step.Truncates limit (x fuel) (x fuel'))
    {next : α → Machine → Tasks} {f : α → Step β} {fuel : Nat}
    (h : (x fuel m).Prints code S m)
    (hf : ∀ a m₁, x fuel m = .done a m₁ → (f a m₁).Prints code (next a m₁) m₁) :
    ((x fuel >>= f) m).Prints code (S.andThen x m next) m := by
  show Outcome.Prints code _ m (Step.bind (x fuel) f m)
  have hsame : ∀ m₁ fuel' a m₂, (x fuel m).machine? = some m₁ →
      x fuel' m = .done a m₂ → x fuel m = .done a m₂ := fun m₁ fuel' a m₂ h₁ h₂ => by
    have hends : (x fuel' m).machine? = some m₂ := by rw [h₂]; rfl
    exact (Step.machine?_unique hx h₁ hends).trans h₂
  unfold Step.bind
  cases hdone : x fuel m with
  | done a m₁ =>
    intro m' hm'
    obtain ⟨calls, hcalls, hmem⟩ := h m₁ (by rw [hdone]; rfl)
    obtain ⟨calls', hcalls', hmem'⟩ := hf a m₁ hdone m' hm'
    refine ⟨calls ++ calls', hcalls.append hcalls', fun c => ?_⟩
    rw [List.mem_append, hmem, hmem']
    constructor
    · rintro (⟨u, n, hu, hc⟩ | ⟨u, n, hu, hc⟩)
      · exact ⟨u, n, .inl hu, hc⟩
      · exact ⟨u, n, .inr ⟨fuel, a, m₁, hdone, hu⟩, hc⟩
    · rintro ⟨u, n, hu | ⟨fuel', b, m₂, hb, hu⟩, hc⟩
      · exact .inl ⟨u, n, hu, hc⟩
      · cases hdone.symm.trans (hsame m₁ _ _ _ (by rw [hdone]; rfl) hb)
        exact .inr ⟨u, n, hu, hc⟩
  | failed e m₁ =>
    intro m' hm'
    obtain ⟨calls, hcalls, hmem⟩ := h m' (by rw [hdone]; exact hm')
    refine ⟨calls, hcalls, fun c => (hmem c).trans ?_⟩
    constructor
    · rintro ⟨u, n, hu, hc⟩
      exact ⟨u, n, .inl hu, hc⟩
    · rintro ⟨u, n, hu | ⟨fuel', b, m₂, hb, hu⟩, hc⟩
      · exact ⟨u, n, hu, hc⟩
      · cases hdone.symm.trans (hsame m₁ _ _ _ (by rw [hdone]; rfl) hb)
  | stuck => exact stuck
  | exhausted => exact exhausted

/-- The truth of a value that must be an integer. -/
theorem truthOf_bind {cond : ExprId} {v : Value} {f : Bool → Step β}
    (h : v.isInteger = true → (f v.isTrue m).Prints code S m) :
    ((truthOf code cond v >>= f) m).Prints code (.given (v.isInteger = true) S) m := by
  refine .given (fun hinteger => ?_) fun hno => ?_
  · show Outcome.Prints code S m (Step.bind (truthOf code cond v) f m)
    rw [Step.bind, truthOf_of_isInteger hinteger]
    exact h hinteger
  · have hfail : truthOf code cond v = failAt code (.condition v.typeName) cond := if_neg hno
    show Outcome.Prints code .none m (Step.bind (truthOf code cond v) f m)
    rw [hfail, Step.bind, failAt]
    cases hcond : code.arena.expr? cond with
    | none => exact stuck
    | some node => exact silent (α := β) (Step.silent_fail _ _) m

/-- What a task starts tells what it prints, if the task is no print call itself. -/
theorem only {t : Task} (ht : ∀ c : PrintCall, c.Valid → c.task ≠ t)
    (h : o.Prints code (t.Parts code m) m) : o.Prints code (.only t m) m := by
  intro m' hm'
  obtain ⟨calls, hcalls, hmem⟩ := h m' hm'
  refine ⟨calls, hcalls, fun c => (hmem c).trans ⟨?_, ?_⟩⟩
  · rintro ⟨u, n, hu, hc⟩
    exact ⟨t, m, ⟨rfl, rfl⟩, hc.valid, .of_starts (starts_iff.2 hu) hc.visits⟩
  · rintro ⟨_, _, ⟨rfl, rfl⟩, hc⟩
    rcases hc.visits.eq_or_starts with ⟨htask, -⟩ | ⟨u, n, hu, hvisits⟩
    · exact (ht c hc.valid htask).elim
    · exact ⟨u, n, starts_iff.1 hu, hc.valid, hvisits⟩

/-- The same of a task that calls no native function. -/
theorem only_parts {t : Task} (ht : t.isNativeCall = false)
    (h : o.Prints code (t.Parts code m) m) : o.Prints code (.only t m) m := by
  refine only (fun c _ htask => ?_) h
  rw [← htask] at ht
  cases ht

end Outcome.Prints

end Scriptorium
