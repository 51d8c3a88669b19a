import BoolExpr.Proofs.Derivation
import BoolExpr.Proofs.Scan

/-!
Reading follows the grammar. Each reader returns the tree of a derivation of the tokens that it
takes, and the scan goes through whatever has a derivation, as far as the limit on nesting admits
it. Hence reading succeeds exactly on the tokens that the grammar derives.
-/
namespace BoolExpr.Grammar

/-- Each tree that the reader returns is that of a derivation of the tokens that it takes, with no
more than `levels` nested parentheses. -/
def Sound (levels : Nat) (l : Level) (reader : Expr.Reader) : Prop :=
  ∀ after tokens r, reader.run after tokens = .ok r →
    ∃ d : Derivation l, d.yield ++ r.2 = tokens ∧ d.tree = r.1 ∧ d.depth ≤ levels

variable {op : Op} {levels : Nat} {reader : Expr.Reader} {endPosition : Int} {opened : List Token}

theorem exists_derivation_of_runJoin (hreader : Sound levels (below op) reader)
    {tokens : List Token}
    {left : Expr} {r : Expr × List Token} (h : Expr.runJoin op reader left tokens = .ok r)
    (front : Derivation (.chain op)) (hleft : front.tree = left) (hdepth : front.depth ≤ levels) :
    ∃ d : Derivation (.chain op),
      d.yield ++ r.2 = front.yield ++ tokens ∧ d.tree = r.1 ∧ d.depth ≤ levels := by
  induction left, tokens using Expr.joinFrom.induct op generalizing front with
  | case1 left =>
    rw [Expr.runJoin_nil, Except.ok.injEq] at h
    subst h
    exact ⟨front, rfl, hleft, hdepth⟩
  | case2 left t rest ht ih =>
    obtain ⟨right, hright, hjoin⟩ := Expr.runJoin_operator_ok ht h
    obtain ⟨last, hyield, htree, hlast⟩ := hreader _ _ _ hright
    obtain ⟨d, hd, htree', hdepth'⟩ := ih right hjoin (front.join t ht last)
      (by simp only [Derivation.tree, hleft, htree])
      (by simp only [Derivation.depth]; omega)
    refine ⟨d, ?_, htree', hdepth'⟩
    rw [hd]
    simp only [Derivation.yield, List.append_assoc, List.cons_append, hyield]
  | case3 left t rest ht =>
    rw [Expr.runJoin_other ht, Except.ok.injEq] at h
    subst h
    exact ⟨front, rfl, hleft, hdepth⟩

theorem sound_chain (hreader : Sound levels (below op) reader) :
    Sound levels (.chain op) (Expr.chain op reader) := by
  intro after tokens r h
  rw [Expr.run_chain, Outcome.bind_eq_ok] at h
  obtain ⟨first, hfirst, hjoin⟩ := h
  obtain ⟨d, hyield, htree, hdepth⟩ := hreader _ _ _ hfirst
  obtain ⟨d', hd', htree', hdepth'⟩ :=
    exists_derivation_of_runJoin hreader hjoin (.single d) htree hdepth
  exact ⟨d', by rw [hd', ← hyield]; rfl, htree', hdepth'⟩

/-- The body of a group and what closes it make up an operand. -/
theorem exists_group_of_runClose {left : Token} (hleft : left.kind = .opening)
    {body r : Expr × List Token} (h : Expr.runClose left body = .ok r) (d : Derivation expression)
    (htree : d.tree = body.1) (hdepth : d.depth ≤ levels) :
    ∃ d' : Derivation .operand,
      d'.yield ++ r.2 = left :: (d.yield ++ body.2) ∧ d'.tree = r.1 ∧ d'.depth ≤ levels + 1 := by
  obtain ⟨e, tokens⟩ := body
  cases tokens with
  | nil => cases h
  | cons t rest =>
    by_cases ht : t.kind = .closing
    · simp only [Expr.runClose, if_pos ht, Except.ok.injEq] at h
      subst h
      refine ⟨.group left hleft d t ht, ?_, htree, Nat.succ_le_succ hdepth⟩
      simp only [Derivation.yield, List.cons_append, List.append_assoc, List.nil_append]
    · simp only [Expr.runClose, if_neg ht] at h
      cases h

theorem sound_operand : Sound levels .operand (Expr.operand endPosition levels opened) := by
  induction levels using Nat.strongRecOn generalizing opened with
  | ind levels ih =>
    intro after tokens r h
    obtain ⟨t, rest, rfl, hcases⟩ := Expr.run_operand_ok h
    rcases hcases with ⟨value, ht, rfl⟩ | ⟨ht, rfl⟩ | ⟨ht, inner, body, rfl, hbody, hclose⟩
    · exact ⟨.literal t value ht, rfl, rfl, Nat.zero_le _⟩
    · exact ⟨.var t ht, rfl, rfl, Nat.zero_le _⟩
    · have hsound : Sound inner expression (Expr.expression endPosition inner (t :: opened)) :=
        sound_chain (sound_chain (ih inner (Nat.lt_succ_self inner)))
      obtain ⟨d, hyield, htree, hdepth⟩ := hsound _ _ _ hbody
      obtain ⟨d', hd', htree', hdepth'⟩ := exists_group_of_runClose ht hclose d htree hdepth
      exact ⟨d', by rw [hd', hyield], htree', hdepth'⟩

theorem sound_expression :
    Sound levels expression (Expr.expression endPosition levels opened) :=
  sound_chain (sound_chain sound_operand)

theorem exists_derivation_of_ofTokens {limit : NestingLimit} {tokens : List Token} {e : Expr}
    (h : Expr.ofTokens limit tokens = .ok e) :
    ∃ d : Derivation expression,
      d.yield = Token.body tokens ∧ d.tree = e ∧ d.depth ≤ limit.value := by
  rw [Expr.ofTokens_eq, Outcome.bind_eq_ok] at h
  obtain ⟨⟨e', rest⟩, hwhole, hend⟩ := h
  obtain ⟨d, hyield, htree, hdepth⟩ := sound_expression _ _ _ hwhole
  cases rest with
  | nil =>
    obtain rfl : e' = e := Except.ok.inj hend
    exact ⟨d, by rw [← hyield, List.append_nil], htree, hdepth⟩
  | cons t more =>
    simp only [Expr.runEnd] at hend
    split at hend <;> cases hend

section Scanning

open Scan

variable {l : Level} {limit : Nat}

/-- Where an operand is due, the scan goes through what has a derivation and completes it. -/
theorem conclude_yield (d : Derivation l) (after : Option Token) (rest : List Token)
    (h : opened.length + d.depth ≤ limit) :
    conclude limit endPosition ⟨.due after, opened⟩ (d.yield ++ rest) =
      conclude limit endPosition ⟨.complete, opened⟩ rest := by
  induction d generalizing opened after rest with
  | literal t value ht => exact conclude_step (by simp [State.step, ht])
  | var t ht => exact conclude_step (by simp [State.step, ht])
  | group left hleft body right hright ih =>
    rw [Derivation.depth] at h
    have hbody := @ih (left :: opened) none (right :: rest) (by rw [List.length_cons]; omega)
    rw [Derivation.yield, List.cons_append, List.append_assoc, List.singleton_append,
      conclude_step (State.step_opening after hleft (by omega)), hbody]
    exact conclude_step (by simp [State.step, hright])
  | single first ih => exact ih after rest h
  | join front t ht last ihf ihl =>
    rw [Derivation.depth] at h
    have hstep := State.step_operator limit opened ht
    rw [Derivation.yield, List.append_assoc, List.cons_append,
      ihf after (t :: (last.yield ++ rest)) (by omega), conclude_step hstep,
      ihl (some t) rest (by omega)]

/-- A derivation that nests too deep stops the scan for that reason. -/
theorem conclude_yield_tooDeep (d : Derivation l) (after : Option Token) (rest : List Token)
    (hopened : opened.length ≤ limit) (h : limit < opened.length + d.depth) :
    ∃ p, conclude limit endPosition ⟨.due after, opened⟩ (d.yield ++ rest) =
      .error (.nestingTooDeep p limit) := by
  induction d generalizing opened after rest with
  | literal t value ht =>
    rw [Derivation.depth] at h
    omega
  | var t ht =>
    rw [Derivation.depth] at h
    omega
  | group left hleft body right hright ih =>
    rw [Derivation.depth] at h
    rw [Derivation.yield, List.cons_append, List.append_assoc]
    by_cases hroom : opened.length < limit
    · rw [conclude_step (State.step_opening after hleft hroom)]
      exact @ih (left :: opened) none _ (by rw [List.length_cons]; omega)
        (by rw [List.length_cons]; omega)
    · have hfull : opened.length = limit := by omega
      exact ⟨left.position, conclude_stop (by simp [State.step, hleft, hfull])⟩
  | single first ih => exact ih after rest hopened h
  | join front t ht last ihf ihl =>
    rw [Derivation.depth] at h
    rw [Derivation.yield, List.append_assoc, List.cons_append]
    by_cases hfront : limit < opened.length + front.depth
    · exact ihf after _ hopened hfront
    · have hstep := State.step_operator limit opened ht
      rw [conclude_yield front after _ (by omega), conclude_step hstep]
      exact ihl (some t) rest hopened (by omega)

end Scanning

variable {limit : NestingLimit} {tokens : List Token}

theorem ofTokens_of_derivation (d : Derivation expression) (hyield : d.yield = Token.body tokens)
    (hdepth : d.depth ≤ limit.value) : Expr.ofTokens limit tokens = .ok d.tree := by
  have hscan := Scan.conclude_ofTokens limit tokens
  have haccept : Scan.conclude limit.value (Token.endPosition tokens) .start (d.yield ++ []) =
      .ok () := conclude_yield d none [] (by simpa using hdepth)
  rw [List.append_nil, hyield] at haccept
  obtain ⟨e, he, -⟩ := Outcome.map_eq_ok.mp (hscan.symm.trans haccept)
  obtain ⟨d', hyield', htree, -⟩ := exists_derivation_of_ofTokens he
  rw [Derivation.yield_injective d d' (hyield.trans hyield'.symm), htree]
  exact he

theorem ofTokens_tooDeep (d : Derivation expression) (hyield : d.yield = Token.body tokens)
    (hdepth : limit.value < d.depth) :
    ∃ p, Expr.ofTokens limit tokens = .error (.nestingTooDeep p limit.value) := by
  have hscan := Scan.conclude_ofTokens limit tokens
  have hstop : ∃ p, Scan.conclude limit.value (Token.endPosition tokens) .start (d.yield ++ []) =
      .error (.nestingTooDeep p limit.value) :=
    conclude_yield_tooDeep d none [] (Nat.zero_le _) (by simpa using hdepth)
  obtain ⟨p, hp⟩ := hstop
  rw [List.append_nil, hyield] at hp
  have herror := hscan.symm.trans hp
  cases hread : Expr.ofTokens limit tokens with
  | ok e =>
    rw [hread] at herror
    cases herror
  | error e =>
    rw [hread] at herror
    exact ⟨p, congrArg Except.error (Except.error.inj herror)⟩

/-- Reading returns a tree exactly when the tokens before the first end mark have a derivation whose
parentheses are nested no deeper than the limit; it returns the tree of that derivation, and there
is no other one. -/
theorem ofTokens_eq_ok_iff (limit : NestingLimit) (tokens : List Token) :
    (∀ e, Expr.ofTokens limit tokens = .ok e ↔
      ∃ d : Derivation expression,
        d.yield = Token.body tokens ∧ d.depth ≤ limit.value ∧ d.tree = e) ∧
    ∀ d d' : Derivation expression,
      d.yield = Token.body tokens → d'.yield = Token.body tokens → d = d' := by
  refine ⟨fun e => ⟨fun h => ?_, ?_⟩, fun d d' h h' => d.yield_injective d' (h.trans h'.symm)⟩
  · obtain ⟨d, hyield, htree, hdepth⟩ := exists_derivation_of_ofTokens h
    exact ⟨d, hyield, hdepth, htree⟩
  · rintro ⟨d, hyield, hdepth, rfl⟩
    exact ofTokens_of_derivation d hyield hdepth

end BoolExpr.Grammar
