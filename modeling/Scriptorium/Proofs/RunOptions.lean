import Mathlib.Data.List.Basic
import Scriptorium.Program.Arguments
import Scriptorium.Proofs.Literals

/-!
# Files and options in any order

The arguments of `run` are read from left to right, but what comes of them can be told without
reading: the first argument that is wrong decides if there is one, the files keep their order,
and of the limits the last one counts.

* `DenotesNumber`, `AsksLimit`, `Faulty` — what an argument says, told from its text;
* `callLimitOf_eq_ok_iff`, `fault?_eq_some_iff` — the same as it is found by the program;
* `readRunArguments_eq` — the whole reading in one equation;
* `AnsweredBy` — the rule for the answer, and `run_arguments_answered`: the answer follows it,
  and options can be moved across files.
-/

namespace Scriptorium

/-! ## What an argument says -/

/-- The text consists of decimal digits, perhaps after a plus sign, and they denote `n`. -/
def DenotesNumber (text : String) (n : Nat) : Prop :=
  ∃ digits : List Char, (text.toList = digits ∨ text.toList = '+' :: digits) ∧ digits ≠ [] ∧
    (∀ d ∈ digits, d.isDigit = true) ∧ n = Nat.ofDigits 10 (digits.reverse.map digitValue)

/-- What the value of the option that sets the limit asks for: no limit, or a positive number
that fits into 64 bits. -/
def AsksLimit (value : String) : Option Nat → Prop
  | none => value = "none"
  | some n => DenotesNumber value n ∧ 0 < n ∧ n < 2 ^ 64

/-- What is wrong with an argument. -/
inductive Faulty : String → CommandError → Prop where
  /-- The value of the option that sets the limit asks for nothing. -/
  | limit {value : String} :
      (∀ limit, ¬ AsksLimit value limit) → Faulty ("--max-depth=" ++ value) (.invalidDepth value)
  /-- Another argument starts like an option. -/
  | option {rest : String} :
      (∀ value, "-" ++ rest ≠ "--max-depth=" ++ value) →
      Faulty ("-" ++ rest) (.unknownOption ("-" ++ rest))

/-- Is the argument a file?  A file does not start like an option. -/
def namesFile (arg : String) : Bool := arg.toList.head? != some '-'

/-! ## Texts that start with a text -/

theorem afterStart?_eq_some_iff {start text rest : String} :
    afterStart? start text = some rest ↔ text = start ++ rest := by
  unfold afterStart?
  constructor
  · intro h
    split at h
    · next hprefix =>
      obtain ⟨after, hafter⟩ := List.isPrefixOf_iff_prefix.1 hprefix
      cases h
      apply String.toList_inj.1
      simp [← hafter]
    · cases h
  · rintro rfl
    simp

theorem afterStart?_eq_none_iff {start text : String} :
    afterStart? start text = none ↔ ∀ rest, text ≠ start ++ rest := by
  simp only [Option.eq_none_iff_forall_ne_some, ne_eq, afterStart?_eq_some_iff]

theorem looksLikeOption_eq (arg : String) : looksLikeOption arg = !namesFile arg := by
  rw [Bool.eq_iff_iff, looksLikeOption, Option.isSome_iff_exists]
  simp only [afterStart?_eq_some_iff, namesFile, Bool.not_eq_true', bne_eq_false_iff_eq,
    List.head?_eq_some_iff]
  constructor
  · rintro ⟨rest, rfl⟩
    exact ⟨rest.toList, by simp⟩
  · rintro ⟨cs, hcs⟩
    exact ⟨String.ofList cs, String.toList_inj.1 (by simpa using hcs)⟩

/-! ## Limits -/

/-- A text without the plus sign that it starts with, if any. -/
def signless : List Char → List Char
  | '+' :: rest => rest
  | cs => cs

theorem signless_cases (cs : List Char) : cs = signless cs ∨ cs = '+' :: signless cs := by
  unfold signless
  split
  · exact .inr rfl
  · exact .inl rfl

/-- Digits do not start with a sign. -/
theorem signless_of_isDigit {digits : List Char} (h : ∀ d ∈ digits, d.isDigit = true) :
    signless digits = digits := by
  unfold signless
  split
  · exact absurd (h '+' (List.mem_cons_self ..)) (by decide)
  · rfl

theorem unsignedNumber?_eq_some_iff {text : String} {n : Nat} :
    unsignedNumber? text = some n ↔ DenotesNumber text n ∧ n < 2 ^ 64 := by
  have heq : unsignedNumber? text =
      if (signless text.toList).isEmpty || !(signless text.toList).all Char.isDigit then none
      else if digitsValue (signless text.toList) ≤ maxOptionNumber then
        some (digitsValue (signless text.toList))
      else none := rfl
  have hbound (n : Nat) : n ≤ maxOptionNumber ↔ n < 2 ^ 64 := by
    rw [maxOptionNumber]
    omega
  rw [heq]
  constructor
  · intro h
    split at h
    · cases h
    next hdigits =>
    simp only [Bool.or_eq_true, Bool.not_eq_true', not_or, List.isEmpty_iff,
      Bool.not_eq_false, List.all_eq_true] at hdigits
    split at h
    · next hn =>
      cases h
      exact ⟨⟨_, signless_cases _, hdigits.1, hdigits.2, digitsValue_eq_ofDigits _⟩,
        (hbound _).1 hn⟩
    · cases h
  · rintro ⟨⟨digits, htext, hne, hall, rfl⟩, hn⟩
    have hsignless : signless text.toList = digits := by
      rcases htext with htext | htext
      · rw [htext, signless_of_isDigit hall]
      · rw [htext, signless]
    rw [← digitsValue_eq_ofDigits] at hn ⊢
    rw [hsignless, if_neg (by simpa [hne] using hall), if_pos ((hbound _).2 hn)]

theorem not_denotesNumber_none {n : Nat} : ¬ DenotesNumber "none" n := by
  rintro ⟨digits, htext, -, hall, -⟩
  rcases htext with rfl | htext
  · exact absurd (hall 'n' (by decide)) (by decide)
  · simp at htext

theorem callLimitOf_eq_ok_iff {value : String} {limit : Option Nat} :
    callLimitOf value = .ok limit ↔ AsksLimit value limit := by
  unfold callLimitOf
  by_cases hnone : value = "none"
  · rw [if_pos hnone]
    cases limit with
    | none => simp [AsksLimit, hnone]
    | some n => simp [AsksLimit, hnone, not_denotesNumber_none]
  rw [if_neg hnone]
  cases limit with
  | none =>
    refine iff_of_false (fun h => ?_) hnone
    split at h
    · split at h <;> cases h
    · cases h
  | some n =>
    constructor
    · intro h
      split at h
      · next m hm =>
        split at h
        · next hpos =>
          cases h
          obtain ⟨hdenotes, hlt⟩ := unsignedNumber?_eq_some_iff.1 hm
          exact ⟨hdenotes, hpos, hlt⟩
        · cases h
      · cases h
    · rintro ⟨hdenotes, hpos, hlt⟩
      rw [unsignedNumber?_eq_some_iff.2 ⟨hdenotes, hlt⟩]
      exact if_pos hpos

/-- The error names the value. -/
theorem callLimitOf_error {value : String} {e : CommandError}
    (h : callLimitOf value = .error e) : e = .invalidDepth value := by
  unfold callLimitOf at h
  split at h
  · cases h
  split at h
  · split at h <;> cases h
    rfl
  · cases h
    rfl

theorem callLimitOf_eq_error_iff {value : String} {e : CommandError} :
    callLimitOf value = .error e ↔
      (∀ limit, ¬ AsksLimit value limit) ∧ e = .invalidDepth value := by
  constructor
  · intro h
    refine ⟨fun limit hlimit => ?_, callLimitOf_error h⟩
    rw [callLimitOf_eq_ok_iff.2 hlimit] at h
    cases h
  · rintro ⟨hnone, rfl⟩
    cases h : callLimitOf value with
    | ok limit => exact absurd (callLimitOf_eq_ok_iff.1 h) (hnone limit)
    | error e => rw [callLimitOf_error h]

/-! ## One argument -/

/-- What is wrong with an argument, if anything. -/
def fault? (arg : String) : Option CommandError :=
  match afterStart? depthOption arg with
  | some value =>
      match callLimitOf value with
      | .ok _ => none
      | .error e => some e
  | none => if looksLikeOption arg then some (.unknownOption arg) else none

/-- The limit that an argument sets, if it sets one. -/
def limit? (arg : String) : Option (Option Nat) :=
  (afterStart? depthOption arg).bind fun value => (callLimitOf value).toOption

theorem fault?_eq_some_iff {arg : String} {e : CommandError} :
    fault? arg = some e ↔ Faulty arg e := by
  constructor
  · intro h
    unfold fault? at h
    split at h
    · next value hvalue =>
      obtain rfl := afterStart?_eq_some_iff.1 hvalue
      split at h
      · cases h
      · next e' he =>
        cases h
        obtain ⟨hnone, rfl⟩ := callLimitOf_eq_error_iff.1 he
        exact .limit hnone
    · next hnone =>
      split at h
      · next hoption =>
        cases h
        obtain ⟨rest, hrest⟩ := Option.isSome_iff_exists.1 hoption
        obtain rfl := afterStart?_eq_some_iff.1 hrest
        exact .option (afterStart?_eq_none_iff.1 hnone)
      · cases h
  · intro h
    cases h with
    | @limit value hnone =>
      have hvalue : afterStart? depthOption ("--max-depth=" ++ value) = some value :=
        afterStart?_eq_some_iff.2 rfl
      rw [fault?, hvalue]
      dsimp only
      rw [callLimitOf_eq_error_iff.2 ⟨hnone, rfl⟩]
    | @option rest hother =>
      have hoption : looksLikeOption ("-" ++ rest) = true :=
        Option.isSome_iff_exists.2 ⟨rest, afterStart?_eq_some_iff.2 rfl⟩
      have hnone : afterStart? depthOption ("-" ++ rest) = none :=
        afterStart?_eq_none_iff.2 hother
      rw [fault?, hnone]
      exact if_pos hoption

theorem limit?_eq_some_iff {arg : String} {limit : Option Nat} :
    limit? arg = some limit ↔ ∃ value, arg = "--max-depth=" ++ value ∧ AsksLimit value limit := by
  have hok (value : String) :
      (callLimitOf value).toOption = some limit ↔ AsksLimit value limit := by
    rw [← callLimitOf_eq_ok_iff]
    cases callLimitOf value <;> simp [Except.toOption]
  simp only [limit?, Option.bind_eq_some_iff, afterStart?_eq_some_iff, hok]
  rfl

/-- The option that sets the limit is no file. -/
theorem namesFile_depthOption (value : String) : namesFile (depthOption ++ value) = false := by
  rw [namesFile, String.toList_append]
  rfl

theorem limit?_of_namesFile {arg : String} (h : namesFile arg = true) : limit? arg = none := by
  refine Option.eq_none_iff_forall_ne_some.2 fun limit hlimit => ?_
  obtain ⟨value, rfl, -⟩ := limit?_eq_some_iff.1 hlimit
  rw [show namesFile ("--max-depth=" ++ value) = false from namesFile_depthOption value] at h
  cases h

/-! ## All arguments -/

/-- One argument is taken off: it is wrong, or it is a file, or it sets a limit. -/
theorem readRunArguments_cons (seen : RunArguments) (arg : String) (args : List String) :
    readRunArguments seen (arg :: args) =
      match fault? arg with
      | some e => .error e
      | none =>
          readRunArguments
            ⟨if namesFile arg then arg :: seen.files else seen.files,
              (limit? arg).getD seen.callLimit⟩ args := by
  rw [readRunArguments, fault?, limit?]
  cases hvalue : afterStart? depthOption arg with
  | some value =>
    have hfile : namesFile arg = false := by
      rw [afterStart?_eq_some_iff.1 hvalue, namesFile_depthOption]
    cases hlimit : callLimitOf value with
    | ok limit => simp [hlimit, hfile, Except.toOption]
    | error e => simp [hlimit]
  | none =>
    rw [looksLikeOption_eq]
    cases hfile : namesFile arg <;> simp

/-- The first argument that is wrong is reported; if there is none, the files come in their
order, and the last limit counts. -/
theorem readRunArguments_eq (seen : RunArguments) (args : List String) :
    readRunArguments seen args =
      match args.findSome? fault? with
      | some e => .error e
      | none =>
          .ok ⟨seen.files.reverse ++ args.filter namesFile,
            (args.filterMap limit?).getLast?.getD seen.callLimit⟩ := by
  induction args generalizing seen with
  | nil => simp [readRunArguments]
  | cons arg args ih =>
    rw [readRunArguments_cons, List.findSome?_cons]
    cases fault? arg with
    | some e => rfl
    | none =>
      have hfiles : (if namesFile arg then arg :: seen.files else seen.files).reverse ++
          args.filter namesFile = seen.files.reverse ++ (arg :: args).filter namesFile := by
        cases hfile : namesFile arg <;> simp [hfile]
      have hlimit : (args.filterMap limit?).getLast?.getD ((limit? arg).getD seen.callLimit) =
          ((arg :: args).filterMap limit?).getLast?.getD seen.callLimit := by
        rw [List.filterMap_cons]
        cases limit? arg with
        | none => rfl
        | some limit => rw [List.getLast?_cons]; rfl
      dsimp only
      rw [ih, hfiles, hlimit]

/-! ## The answer -/

/-- None of the arguments is wrong. -/
def Faultless (args : List String) : Prop := ∀ arg ∈ args, ∀ e, ¬ Faulty arg e

theorem faultless_iff {args : List String} : Faultless args ↔ args.findSome? fault? = none := by
  rw [List.findSome?_eq_none_iff]
  simp only [Faultless, Option.eq_none_iff_forall_ne_some, ne_eq, fault?_eq_some_iff]

/-- The limit is that of the last option that sets one, or else the usual one of a thousand. -/
def LastLimit (args : List String) (limit : Option Nat) : Prop :=
  (∃ before value after, args = before ++ ("--max-depth=" ++ value) :: after ∧
    AsksLimit value limit ∧ ∀ arg ∈ after, ∀ other, arg ≠ "--max-depth=" ++ other) ∨
  (∀ arg ∈ args, ∀ value, arg ≠ "--max-depth=" ++ value) ∧ limit = some 1000

/-- The rule for the answer to arguments. -/
inductive AnsweredBy (args : List String) : Except CommandError RunArguments → Prop where
  /-- The first argument that is wrong is reported. -/
  | wrong {before after : List String} {arg : String} {e : CommandError} :
      args = before ++ arg :: after → Faultless before → Faulty arg e →
      AnsweredBy args (.error e)
  /-- There has to be a file. -/
  | noFile :
      Faultless args → (∀ arg ∈ args, namesFile arg = false) →
      AnsweredBy args (.error (.usage runForm))
  /-- The files come in their order, with the last limit. -/
  | found {limit : Option Nat} :
      Faultless args → (∃ arg ∈ args, namesFile arg = true) → LastLimit args limit →
      AnsweredBy args (.ok ⟨args.filter namesFile, limit⟩)

/-- If no argument is wrong, every option for the limit sets one. -/
theorem limit?_eq_none_iff {args : List String} (h : Faultless args) {arg : String}
    (hmem : arg ∈ args) : limit? arg = none ↔ ∀ value, arg ≠ "--max-depth=" ++ value := by
  constructor
  · rintro hnone value rfl
    refine h _ hmem _ (.limit fun limit hlimit => ?_)
    rw [limit?_eq_some_iff.2 ⟨value, rfl, hlimit⟩] at hnone
    cases hnone
  · intro hother
    refine Option.eq_none_iff_forall_ne_some.2 fun limit hlimit => ?_
    obtain ⟨value, rfl, -⟩ := limit?_eq_some_iff.1 hlimit
    exact hother value rfl

theorem lastLimit_iff {args : List String} (h : Faultless args) {limit : Option Nat} :
    LastLimit args limit ↔ (args.filterMap limit?).getLast?.getD (some 1000) = limit := by
  rw [List.getLast?_filterMap]
  constructor
  · rintro (⟨before, value, after, rfl, hlimit, hafter⟩ | ⟨hother, rfl⟩)
    · have hlast : (before ++ ("--max-depth=" ++ value) :: after).reverse.findSome? limit? =
          some limit := by
        refine List.findSome?_eq_some_iff.2 ⟨after.reverse, _, before.reverse, by simp,
          limit?_eq_some_iff.2 ⟨value, rfl, hlimit⟩, fun arg harg => ?_⟩
        have harg := List.mem_reverse.1 harg
        exact (limit?_eq_none_iff h (by simp [harg])).2 (hafter arg harg)
      rw [hlast]
      rfl
    · have hnone : args.reverse.findSome? limit? = none :=
        List.findSome?_eq_none_iff.2 fun arg harg =>
          (limit?_eq_none_iff h (List.mem_reverse.1 harg)).2 (hother arg (List.mem_reverse.1 harg))
      rw [hnone]
      rfl
  · rintro rfl
    cases hlast : args.reverse.findSome? limit? with
    | some limit =>
      obtain ⟨after, arg, before, hargs, harg, hafter⟩ := List.findSome?_eq_some_iff.1 hlast
      obtain ⟨value, rfl, hlimit⟩ := limit?_eq_some_iff.1 harg
      obtain rfl : args = before.reverse ++ ("--max-depth=" ++ value) :: after.reverse := by
        simpa using congrArg List.reverse hargs
      refine .inl ⟨_, value, _, rfl, hlimit, fun arg harg => ?_⟩
      exact (limit?_eq_none_iff h (by simp [harg])).1 (hafter arg (List.mem_reverse.1 harg))
    | none =>
      refine .inr ⟨fun arg harg => ?_, rfl⟩
      have hnone := List.findSome?_eq_none_iff.1 hlast arg (List.mem_reverse.2 harg)
      exact (limit?_eq_none_iff h harg).1 hnone

theorem parseRunArguments_eq (args : List String) :
    parseRunArguments args =
      match args.findSome? fault? with
      | some e => .error e
      | none =>
          if (args.filter namesFile).isEmpty then .error (.usage runForm)
          else .ok ⟨args.filter namesFile,
            (args.filterMap limit?).getLast?.getD (some 1000)⟩ := by
  rw [parseRunArguments, readRunArguments_eq]
  cases args.findSome? fault? with
  | some e => rfl
  | none => rfl

theorem isEmpty_filter_namesFile {args : List String} :
    (args.filter namesFile).isEmpty = false ↔ ∃ arg ∈ args, namesFile arg = true := by
  rw [← Bool.not_eq_true, List.isEmpty_iff, List.filter_eq_nil_iff]
  simp

theorem parseRunArguments_eq_iff {args : List String}
    {answer : Except CommandError RunArguments} :
    parseRunArguments args = answer ↔ AnsweredBy args answer := by
  rw [parseRunArguments_eq]
  constructor
  · rintro rfl
    cases hfault : args.findSome? fault? with
    | some e =>
      obtain ⟨before, arg, after, hargs, harg, hbefore⟩ := List.findSome?_eq_some_iff.1 hfault
      exact .wrong hargs (faultless_iff.2 (List.findSome?_eq_none_iff.2 hbefore))
        (fault?_eq_some_iff.1 harg)
    | none =>
      have hfaultless := faultless_iff.2 hfault
      dsimp only
      split
      · next hempty =>
        refine .noFile hfaultless fun arg harg => ?_
        rw [List.isEmpty_iff, List.filter_eq_nil_iff] at hempty
        exact Bool.eq_false_iff.2 (hempty arg harg)
      · next hfile =>
        exact .found hfaultless (isEmpty_filter_namesFile.1 (Bool.eq_false_iff.2 hfile))
          ((lastLimit_iff hfaultless).2 rfl)
  · intro h
    cases h with
    | wrong hargs hbefore harg =>
      have hfault : args.findSome? fault? = some _ :=
        List.findSome?_eq_some_iff.2 ⟨_, _, _, hargs, fault?_eq_some_iff.2 harg,
          List.findSome?_eq_none_iff.1 (faultless_iff.1 hbefore)⟩
      rw [hfault]
    | noFile hfaultless hfiles =>
      have hempty : args.filter namesFile = [] :=
        List.filter_eq_nil_iff.2 fun arg harg => Bool.eq_false_iff.1 (hfiles arg harg)
      rw [faultless_iff.1 hfaultless, hempty]
      rfl
    | found hfaultless hfile hlimit =>
      rw [faultless_iff.1 hfaultless, (lastLimit_iff hfaultless).1 hlimit]
      exact if_neg (Bool.eq_false_iff.1 (isEmpty_filter_namesFile.2 hfile))

/-- Options say the same wherever they stand between files. -/
theorem filterMap_limit?_eq (args : List String) :
    (args.filter fun arg => !namesFile arg).filterMap limit? = args.filterMap limit? := by
  rw [List.filterMap_filter]
  refine List.filterMap_congr fun arg _ => ?_
  cases hfile : namesFile arg with
  | true => exact (limit?_of_namesFile hfile).symm
  | false => rfl

theorem mem_of_filter_eq {args other : List String}
    (hfiles : other.filter namesFile = args.filter namesFile)
    (hoptions : other.filter (fun arg => !namesFile arg) = args.filter fun arg => !namesFile arg)
    {arg : String} (h : arg ∈ other) : arg ∈ args := by
  cases hfile : namesFile arg with
  | true =>
    have hmem : arg ∈ other.filter namesFile := List.mem_filter.2 ⟨h, hfile⟩
    rw [hfiles] at hmem
    exact (List.mem_filter.1 hmem).1
  | false =>
    have hmem : arg ∈ other.filter fun arg => !namesFile arg :=
      List.mem_filter.2 ⟨h, by rw [hfile]; rfl⟩
    rw [hoptions] at hmem
    exact (List.mem_filter.1 hmem).1

/-- The answer to arguments of `run`, whatever they are, follows one rule.  If an argument is
wrong, the first such argument is reported: the value of an option for the limit that is
neither `none` nor a positive number of at most 64 bits, or anything else that starts like an
option.  Otherwise, if no argument is a file, the form of the command is reported.  Otherwise
the answer holds the files in their order, and the limit that was set last.

If options are moved across files, so that the options keep their order and so do the files,
an answer that is no error stays the same. -/
theorem run_arguments_answered (args : List String) :
    (∀ answer, parseRunArguments args = answer ↔ AnsweredBy args answer) ∧
    ∀ other found, other.filter namesFile = args.filter namesFile →
      other.filter (fun arg => !namesFile arg) = args.filter (fun arg => !namesFile arg) →
      parseRunArguments args = .ok found → parseRunArguments other = .ok found := by
  refine ⟨fun answer => parseRunArguments_eq_iff, fun other found hfiles hoptions h => ?_⟩
  rw [parseRunArguments_eq_iff] at h
  cases h with
  | found hfaultless hfile hlimit =>
    have hother : Faultless other := fun arg harg =>
      hfaultless arg (mem_of_filter_eq hfiles hoptions harg)
    have hlimits : other.filterMap limit? = args.filterMap limit? := by
      rw [← filterMap_limit?_eq other, hoptions, filterMap_limit?_eq]
    rw [parseRunArguments_eq_iff, ← hfiles]
    refine .found hother ?_ ?_
    · rw [← isEmpty_filter_namesFile, hfiles]
      exact isEmpty_filter_namesFile.2 hfile
    · rw [lastLimit_iff hother, hlimits]
      exact (lastLimit_iff hfaultless).1 hlimit

example : (parseRunArguments ["--max-depth=5", "a", "--max-depth=none", "b"]).toOption =
    some ⟨["a", "b"], none⟩ := by
  decide +kernel

end Scriptorium
