import BoolExpr.Command.Arguments
import BoolExpr.Proofs.Binding
import BoolExpr.Proofs.Commands
import Mathlib.Data.List.Forall2
import Mathlib.Data.List.TakeWhile

/-!
What comes of evaluating a text with items for variables, by the first thing that is wrong. An item
without an equals sign is reported before any value is looked at, a value that stands for no truth
value before the settings are read, and settings that cannot be read before the text is; then come
the failures of the engine, and last the value. The main statement is that the outcome follows these
rules, of which exactly one applies, and that every text with all lists of items can be put on a
command line.
-/
namespace BoolExpr

namespace Bindings

variable {b : Bindings} {pairs : List (String × String)} {name : String}

theorem lookup_map_entryOf (pairs : List (String × String)) (name : String) :
    (pairs.map entryOf).lookup name =
      (pairs.find? fun p => Text.lowercase p.1 = name).map fun p => decide (p.2 = "1") := by
  induction pairs with
  | nil => rfl
  | cons pair rest ih =>
    rw [List.map_cons, entryOf, List.lookup_cons, List.find?_cons, ih]
    by_cases hname : Text.lowercase pair.1 = name
    · simp [hname]
    · have hne : (name == Text.lowercase pair.1) = false :=
        beq_eq_false_iff_ne.mpr fun heq => hname heq.symm
      simp [hname, hne]

/-- The pair that is found first for a name is kept. -/
theorem find?_kept (hname : name ≠ "") (pairs : List (String × String)) :
    ((kept pairs).find? fun p => Text.lowercase p.1 = name) =
      pairs.find? fun p => Text.lowercase p.1 = name := by
  induction pairs with
  | nil => rfl
  | cons pair rest ih =>
    by_cases hkey : pair.1 = ""
    · have hempty : Text.lowercase pair.1 ≠ name := by
        rw [hkey]
        exact hname.symm
      rw [kept_cons_of_empty hkey, ih, List.find?_cons_of_neg (by simpa using hempty)]
    · rw [kept_cons hkey]
      by_cases hpair : Text.lowercase pair.1 = name
      · rw [List.find?_cons_of_pos (by simpa using hpair),
          List.find?_cons_of_pos (by simpa using hpair)]
      · rw [List.find?_cons_of_neg (by simpa using hpair),
          List.find?_cons_of_neg (by simpa using hpair), List.find?_filter, ← ih]
        congr 1
        funext p
        by_cases hp : Text.lowercase p.1 = name
        · simp [hp, Ne.symm hpair]
        · simp [hp]

/-- A name has the value of the first pair for it. -/
theorem find?_ofRaw (h : ofRaw pairs = .ok b) (hname : name ≠ "") :
    b.find? name =
      (pairs.find? fun p => Text.lowercase p.1 = name).map fun p => decide (p.2 = "1") := by
  rw [find?, (values_of_ofRaw h).2, lookup_map_entryOf, find?_kept hname]

theorem mem_names_ofRaw_kept (h : ofRaw pairs = .ok b) (name : String) :
    name ∈ b.names ↔ ∃ pair ∈ kept pairs, Text.lowercase pair.1 = name := by
  rw [mem_names_ofRaw h, exists_mem_kept]

end Bindings

namespace Command

open Bindings (kept IsValue FirstInvalid)

/-- The item is a name and a value with an equals sign between them, the first one in the item; the
blanks around the two are left out. -/
def Splits (item : String) (pair : String × String) : Prop :=
  ∃ name value, item.toList = name ++ '=' :: value ∧ '=' ∉ name ∧
    pair = (Text.strip (String.ofList name), Text.strip (String.ofList value))

/-- What comes of evaluating a text in an environment with some items for variables. -/
inductive Evaluates (env : List (String × String)) (source : String) (items : List String) :
    Except (List Settings.Problem) Outcome → Prop
  /-- The first item without an equals sign is reported, whatever else is wrong. -/
  | unsplit {front back : List String} {item : String} (hitems : items = front ++ item :: back)
      (hfront : ∀ i ∈ front, '=' ∈ i.toList) (hitem : '=' ∉ item.toList) :
      Evaluates env source items
        (.ok ⟨2, "", Outcome.lines ["error: --var expects NAME=0|1, got " ++ Text.quote item]⟩)
  /-- Among items with equals signs, the first kept one whose value is no truth value is reported,
  whatever the settings and the text are. -/
  | invalid {pairs : List (String × String)} {pair : String × String}
      (hpairs : List.Forall₂ Splits items pairs) (hpair : FirstInvalid (kept pairs) pair) :
      Evaluates env source items
        (.ok ⟨1, "", Outcome.lines ["error [invalid_variable_value]: variable values must be " ++
          "either 0 or 1, received " ++ pair.1 ++ ": " ++ Text.quote pair.2]⟩)
  /-- The problems of the settings come before the text. -/
  | settings {pairs : List (String × String)} {problems : List Settings.Problem}
      (hpairs : List.Forall₂ Splits items pairs) (hvalues : ∀ pair ∈ kept pairs, IsValue pair.2)
      (hsettings : Settings.ofEnvironment env = .error problems) :
      Evaluates env source items (.error problems)
  /-- The text is refused under the limits in the settings. -/
  | refused {pairs : List (String × String)} {settings : Settings} {e : ExprError}
      (hpairs : List.Forall₂ Splits items pairs) (hvalues : ∀ pair ∈ kept pairs, IsValue pair.2)
      (hsettings : Settings.ofEnvironment env = .ok settings)
      (hparse : settings.engine.parse source = .error e) :
      Evaluates env source items
        (.ok ⟨1, "", Outcome.lines ["error [" ++ e.kind ++ "]: " ++ e.message]⟩)
  /-- The text has variables that no kept item is for. -/
  | unbound {pairs : List (String × String)} {settings : Settings} {e : Expr} {missing : NameSet}
      (hpairs : List.Forall₂ Splits items pairs) (hvalues : ∀ pair ∈ kept pairs, IsValue pair.2)
      (hsettings : Settings.ofEnvironment env = .ok settings)
      (hparse : settings.engine.parse source = .ok e)
      (hmissing : ∀ name, name ∈ missing ↔
        name ∈ e.names ∧ ∀ pair ∈ kept pairs, Text.lowercase pair.1 ≠ name)
      (hsome : ∃ name, name ∈ missing) :
      Evaluates env source items (.ok ⟨1, "", Outcome.lines
        ["error [unbound_variable]: missing required variables: " ++
          String.intercalate ", " missing.toList]⟩)
  /-- The text has the value under which each variable has that of the first item for it. -/
  | value {pairs : List (String × String)} {settings : Settings} {e : Expr} {b : String → Bool}
      (hpairs : List.Forall₂ Splits items pairs) (hvalues : ∀ pair ∈ kept pairs, IsValue pair.2)
      (hsettings : Settings.ofEnvironment env = .ok settings)
      (hparse : settings.engine.parse source = .ok e)
      (hb : ∀ name ∈ e.names, ∃ pair,
        pairs.find? (fun p => Text.lowercase p.1 = name) = some pair ∧
          b name = decide (pair.2 = "1")) :
      Evaluates env source items
        (.ok ⟨0, Outcome.lines [if e.truth b then "true" else "false"], ""⟩)

variable {env : List (String × String)} {source item : String} {items front back : List String}
  {pair : String × String} {pairs : List (String × String)}
  {outcome : Except (List Settings.Problem) Outcome}

theorem splitEquals_append {name : List Char} (h : '=' ∉ name) (value : List Char) :
    splitEquals (name ++ '=' :: value) = (name, some value) := by
  have hname : ∀ c ∈ name, (c != '=') = true := by
    intro c hc
    exact bne_iff_ne.mpr fun heq => h (heq ▸ hc)
  rw [splitEquals, List.takeWhile_append_of_pos hname, List.dropWhile_append_of_pos hname]
  simp

theorem splitEquals_of_not_mem {cs : List Char} (h : '=' ∉ cs) : splitEquals cs = (cs, none) := by
  have hall : ∀ c ∈ cs, (c != '=') = true := by
    intro c hc
    exact bne_iff_ne.mpr fun heq => h (heq ▸ hc)
  rw [splitEquals, List.takeWhile_eq_self_iff.mpr hall, List.dropWhile_eq_nil_iff.mpr hall]
  rfl

theorem splitItem?_of_splits (h : Splits item pair) : splitItem? item = some pair := by
  obtain ⟨name, value, hitem, hname, rfl⟩ := h
  rw [splitItem?, hitem, splitEquals_append hname]

theorem splitItem?_of_not_mem (h : '=' ∉ item.toList) : splitItem? item = none := by
  rw [splitItem?, splitEquals_of_not_mem h]

theorem exists_splits (h : '=' ∈ item.toList) : ∃ pair, Splits item pair := by
  obtain ⟨name, value, hitem, hname⟩ := List.eq_append_cons_of_mem h
  exact ⟨_, name, value, hitem, hname, rfl⟩

theorem splitItems_of_splits (h : List.Forall₂ Splits items pairs) :
    splitItems items = .ok pairs := by
  induction h with
  | nil => rfl
  | cons hsplit hrest ih =>
    rw [splitItems, splitItem?_of_splits hsplit, ih]
    rfl

theorem splitItems_of_unsplit (hfront : ∀ i ∈ front, '=' ∈ i.toList) (hitem : '=' ∉ item.toList) :
    splitItems (front ++ item :: back) = .error item := by
  induction front with
  | nil => rw [List.nil_append, splitItems, splitItem?_of_not_mem hitem]
  | cons first rest ih =>
    obtain ⟨pair, hpair⟩ := exists_splits (hfront first List.mem_cons_self)
    have hrest := ih fun i hi => hfront i (List.mem_cons_of_mem first hi)
    rw [List.cons_append, splitItems, splitItem?_of_splits hpair, hrest]
    rfl

theorem split_or_unsplit (items : List String) :
    (∃ pairs, List.Forall₂ Splits items pairs) ∨
      ∃ front item back, items = front ++ item :: back ∧ (∀ i ∈ front, '=' ∈ i.toList) ∧
        '=' ∉ item.toList := by
  induction items with
  | nil => exact Or.inl ⟨[], .nil⟩
  | cons first rest ih =>
    by_cases hfirst : '=' ∈ first.toList
    · rcases ih with ⟨pairs, hpairs⟩ | ⟨front, item, back, rfl, hfront, hitem⟩
      · obtain ⟨pair, hpair⟩ := exists_splits hfirst
        exact Or.inl ⟨pair :: pairs, .cons hpair hpairs⟩
      · exact Or.inr ⟨first :: front, item, back, rfl, by simpa [hfirst] using hfront, hitem⟩
    · exact Or.inr ⟨[], first, rest, rfl, by simp, hfirst⟩

/-- Items that are pairs with truth values leave the outcome to the settings and the engine. -/
theorem run_eval_of_values (hpairs : List.Forall₂ Splits items pairs)
    (hvalues : ∀ pair ∈ kept pairs, IsValue pair.2) :
    ∃ b, Bindings.ofRaw pairs = .ok b ∧ (Command.eval source items).run env =
      (Settings.ofEnvironment env).map fun s => evalOutcome s.engine source b := by
  obtain ⟨b, hb, -⟩ := Bindings.exists_ofRaw_of_values hvalues
  refine ⟨b, hb, ?_⟩
  rw [run, splitItems_of_splits hpairs]
  simp only [hb]

theorem evalOutcome_of_missing {engine : Engine} {e : Expr} {b : Bindings}
    (hparse : engine.parse source = .ok e) (h : ∃ name, name ∈ e.missing b) :
    evalOutcome engine source b = .refused (.unboundVariables (e.missing b)) := by
  have hsome : ¬(e.missing b).isEmpty = true := by
    obtain ⟨name, hname⟩ := h
    exact fun hempty => NameSet.isEmpty_iff.mp hempty name hname
  rw [evalOutcome, Engine.evaluate_of_parse hparse, Expr.evaluate_eq, if_neg hsome]

theorem evalOutcome_of_covered {engine : Engine} {e : Expr} {b : Bindings} {v : String → Bool}
    (hparse : engine.parse source = .ok e) (h : ∀ name ∈ e.names, b.find? name = some (v name)) :
    evalOutcome engine source b = .success [if e.truth v then "true" else "false"] := by
  have hall : ∀ name ∈ e.vars, b.contains name = true := by
    intro name hname
    rw [Bindings.contains, h name (Expr.mem_vars.mp hname)]
    rfl
  have htruth : e.truth (fun name => (b.find? name).getD false) = e.truth v :=
    Expr.truth_congr fun name hname => by rw [h name hname]; rfl
  rw [evalOutcome, Engine.evaluate_of_parse hparse, Expr.evaluate_of_contains hall, htruth]

/-- The names that a map from pairs leaves without a value are those that no kept pair is for. -/
theorem mem_missing_iff_kept {e : Expr} {b : Bindings} (hb : Bindings.ofRaw pairs = .ok b)
    (name : String) :
    name ∈ e.missing b ↔ name ∈ e.names ∧ ∀ pair ∈ kept pairs, Text.lowercase pair.1 ≠ name := by
  rw [Expr.mem_missing_iff, Bindings.mem_names_ofRaw_kept hb]
  simp

theorem name_ne_empty {engine : Engine} {e : Expr} {name : String}
    (hparse : engine.parse source = .ok e) (hname : name ∈ e.names) : name ≠ "" := by
  have hword := Engine.isName_of_parse hparse name (NameSet.mem_def.mp (Expr.mem_vars.mpr hname))
  rintro rfl
  exact hword.1 rfl

/-- Each rule determines the outcome. -/
theorem Evaluates.run_eq (h : Evaluates env source items outcome) :
    (Command.eval source items).run env = outcome := by
  cases h with
  | unsplit hitems hfront hitem =>
    rw [run, hitems, splitItems_of_unsplit hfront hitem]
    rfl
  | invalid hpairs hpair =>
    rw [run, splitItems_of_splits hpairs]
    simp only [Bindings.ofRaw_of_firstInvalid hpair]
    rfl
  | settings hpairs hvalues hsettings =>
    obtain ⟨b, -, hrun⟩ := run_eval_of_values hpairs hvalues
    rw [hrun, hsettings]
    rfl
  | @refused pairs settings e hpairs hvalues hsettings hparse =>
    obtain ⟨b, -, hrun⟩ := run_eval_of_values hpairs hvalues
    have heval : evalOutcome settings.engine source b = .refused e := by
      rw [evalOutcome, Engine.evaluate_of_parse_error hparse b]
    rw [hrun, hsettings]
    exact congrArg Except.ok heval
  | @unbound pairs settings e missing hpairs hvalues hsettings hparse hmissing hsome =>
    obtain ⟨b, hb, hrun⟩ := run_eval_of_values hpairs hvalues
    obtain rfl : e.missing b = missing :=
      NameSet.ext fun name => (mem_missing_iff_kept hb name).trans (hmissing name).symm
    rw [hrun, hsettings]
    exact congrArg Except.ok (evalOutcome_of_missing hparse hsome)
  | @value pairs settings e v hpairs hvalues hsettings hparse hv =>
    obtain ⟨b, hb, hrun⟩ := run_eval_of_values hpairs hvalues
    have hfind : ∀ name ∈ e.names, b.find? name = some (v name) := by
      intro name hname
      obtain ⟨pair, hpair, hvalue⟩ := hv name hname
      rw [Bindings.find?_ofRaw hb (name_ne_empty hparse hname), hpair, hvalue]
      rfl
    rw [hrun, hsettings]
    exact congrArg Except.ok (evalOutcome_of_covered hparse hfind)

/-- One of the rules applies. -/
theorem exists_evaluates (env : List (String × String)) (source : String) (items : List String) :
    ∃ outcome, Evaluates env source items outcome := by
  rcases split_or_unsplit items with ⟨pairs, hpairs⟩ | ⟨front, item, back, hitems, hfront, hitem⟩
  swap
  · exact ⟨_, .unsplit hitems hfront hitem⟩
  rcases Bindings.values_or_firstInvalid (kept pairs) with hvalues | ⟨pair, hpair⟩
  swap
  · exact ⟨_, .invalid hpairs hpair⟩
  cases hsettings : Settings.ofEnvironment env with
  | error problems => exact ⟨_, .settings hpairs hvalues hsettings⟩
  | ok settings =>
    cases hparse : settings.engine.parse source with
    | error e => exact ⟨_, .refused hpairs hvalues hsettings hparse⟩
    | ok e =>
      obtain ⟨b, hb, -⟩ := Bindings.exists_ofRaw_of_values hvalues
      by_cases hsome : ∃ name, name ∈ e.missing b
      · exact ⟨_, .unbound hpairs hvalues hsettings hparse (mem_missing_iff_kept hb) hsome⟩
      · refine ⟨_, .value (b := fun name => (b.find? name).getD false) hpairs hvalues hsettings
          hparse fun name hname => ?_⟩
        have hbound : name ∈ b.names := by
          by_contra hnot
          exact hsome ⟨name, Expr.mem_missing_iff.mpr ⟨hname, hnot⟩⟩
        have hfind := Bindings.find?_ofRaw hb (name_ne_empty hparse hname)
        obtain ⟨value, hvalue⟩ := Option.isSome_iff_exists.mp ((b.contains_iff name).mpr hbound)
        obtain ⟨pair, hpair, hread⟩ := Option.map_eq_some_iff.mp (hfind.symm.trans hvalue)
        exact ⟨pair, hpair, by rw [hvalue, hread]; rfl⟩

/-- An item that is joined to its option by an equals sign is taken for what it is. -/
theorem classify_binding (item : String) :
    classify Verb.eval.spellings ("--var=" ++ item) = .option .binding (.equated item.toList) := by
  have hchars : ("--var=" ++ item).toList = "--var".toList ++ '=' :: item.toList :=
    String.toList_append
  have hsplit : splitEquals ("--var".toList ++ '=' :: item.toList) =
      ("--var".toList, some item.toList) := splitEquals_append (by decide) item.toList
  have hwhole : Verb.eval.spellings.lookup ("--var".toList ++ '=' :: item.toList) = none := rfl
  have hname : Verb.eval.spellings.lookup "--var".toList = some .binding := rfl
  simp only [classify, hchars, hsplit, hwhole, hname]
  rfl

/-- The arguments of a command line with these items and, after a separator, this text. -/
theorem classifyAll_eval (source : String) (items : List String) :
    classifyAll Verb.eval.spellings (items.map ("--var=" ++ ·) ++ ["--", source]) =
      items.map (fun item => .option .binding (.equated item.toList)) ++
        [.separator, .operand source] := by
  induction items with
  | nil => rfl
  | cons item rest ih =>
    rw [List.map_cons, List.cons_append, classifyAll, classify_binding]
    exact congrArg (_ :: ·) ih

theorem collect_eval (p : Progress) (hp : p.expression = none) (hsurplus : p.surplus = false)
    (source : String) (items : List String) :
    collect .eval p (items.map (fun item => .option .binding (.equated item.toList)) ++
      [.separator, .operand source]) = .run (.eval source (p.items ++ items)) := by
  induction items generalizing p with
  | nil =>
    simp [collect, hp, Progress.finish, hsurplus, Verb.command]
  | cons item rest ih =>
    rw [List.map_cons, List.cons_append, collect, ih (p.addItem item.toList) hp hsurplus]
    simp [Progress.addItem]

/-- Any text can be evaluated with any items from a command line. -/
theorem request_eval (source : String) (items : List String) :
    request ("eval" :: (items.map ("--var=" ++ ·) ++ ["--", source])) =
      .run (.eval source items) := by
  have hverb : request ("eval" :: (items.map ("--var=" ++ ·) ++ ["--", source])) =
      Verb.eval.request false (items.map ("--var=" ++ ·) ++ ["--", source]) := rfl
  rw [hverb, Verb.request, classifyAll_eval, if_neg (by simp), collect_eval _ rfl rfl]
  rfl

/-- The outcome of evaluation is what the rules say, of which one applies and no two can. Any text
can be evaluated with any items, each of them joined to its option on the command line and the text
behind a separator. -/
theorem run_eval_iff (env : List (String × String)) (source : String) (items : List String) :
    request ("eval" :: (items.map ("--var=" ++ ·) ++ ["--", source])) =
      .run (.eval source items) ∧
    ∀ outcome, (Command.eval source items).run env = outcome ↔
      Evaluates env source items outcome := by
  refine ⟨request_eval source items, fun outcome => ⟨?_, Evaluates.run_eq⟩⟩
  rintro rfl
  obtain ⟨outcome, h⟩ := exists_evaluates env source items
  rw [h.run_eq]
  exact h

end Command

end BoolExpr
