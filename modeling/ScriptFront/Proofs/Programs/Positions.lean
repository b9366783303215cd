import ScriptFront.Proofs.Reading.Blame
import ScriptFront.Proofs.Spelling.Taken
import ScriptFront.Proofs.Termination.Program

namespace ScriptFront

open Parse

namespace Window

-- The index of the current token in the tokens that another window began with.
def indexIn (w whole : Window) : Nat :=
  whole.length - w.length

variable {w whole : Window} {tokens : List Token}

theorem length_next (w : Window) : w.next.length = max (w.length - 1) 1 := by
  unfold next length
  cases hu : w.upcoming with
  | nil => simp [hu]
  | cons token rest =>
      simp only [List.length_cons]
      omega

theorem length_ofTokens (tokens : List Token) : (ofTokens tokens).length ≤ tokens.length + 1 := by
  cases tokens with
  | nil => exact Nat.le_refl _
  | cons token tokens =>
      simp only [ofTokens]
      split <;> simp [length]

theorem Reads.drop_indexIn (h : whole.Reads tokens w) :
    whole.toList.drop (w.indexIn whole) = w.toList := by
  have hdrop := List.suffix_iff_eq_drop.mp h.suffix
  rw [length_toList, length_toList] at hdrop
  exact hdrop.symm

theorem Reads.getElem?_indexIn (h : whole.Reads tokens w) :
    whole.toList[w.indexIn whole]? = some w.current := by
  rw [← List.head?_drop, h.drop_indexIn]
  rfl

theorem Reads.eq_of_length_le (h : whole.Reads tokens w) (hlength : whole.length ≤ w.length) :
    w = whole := by
  have hu := congrArg List.length h.1
  rw [List.length_append] at hu
  unfold length at hlength
  obtain rfl : tokens = [] := List.length_eq_zero_iff.mp (by omega)
  exact h.eq_of_nil

end Window

namespace Diagnostic

-- The token that is blamed is the one where reading stopped or the one behind it.
theorem length_blamed (diagnostic : Diagnostic) (stop : Window) :
    stop.next.length ≤ (diagnostic.blamed stop).length ∧
      (diagnostic.blamed stop).length ≤ stop.length := by
  have hnext := stop.length_next
  have hpos := stop.length_pos
  unfold blamed
  split <;> omega

theorem reads_blamed (diagnostic : Diagnostic) (stop : Window) :
    ∃ tokens, stop.Reads tokens (diagnostic.blamed stop) := by
  unfold blamed
  split
  · exact stop.reads_next
  · exact ⟨[], .refl stop⟩

end Diagnostic

namespace Attempt

-- The index of the token that a failure is blamed on.
def blamedIn? (whole : Window) (attempt : Attempt) : Option Nat :=
  attempt.diagnostic?.map fun diagnostic => (diagnostic.blamed attempt.stop).indexIn whole

-- Two failures that are blamed on one token. The first has not come to it, and the try behind the
-- first begins with it and does not get any further.
structure Repeats (first second : Attempt) : Prop where
  next : second.start = first.resume
  ahead : ∃ diagnostic, first.result = .error diagnostic ∧ diagnostic.isAhead = true
  here : ∃ diagnostic, second.result = .error diagnostic ∧ diagnostic.isAhead = false
  stays : second.stop = second.start

-- A try on the way from a window to the end of input.
structure From (grammar : Grammar) (whole : Window) (attempt : Attempt) : Prop where
  before : ∃ tokens, whole.Reads tokens attempt.start
  reads : ∃ tokens, attempt.start.Reads tokens attempt.stop
  two_le : 2 ≤ attempt.start.length
  resume_lt : attempt.resume.length < attempt.start.length
  points : ∀ diagnostic, attempt.result = .error diagnostic →
    diagnostic.PointsAt grammar attempt.stop

variable {grammar : Grammar} {whole w : Window} {attempt first second : Attempt}

theorem From.trans {tokens : List Token} (hread : whole.Reads tokens w)
    (h : From grammar w attempt) : From grammar whole attempt := by
  obtain ⟨before, hbefore⟩ := h.before
  exact ⟨⟨_, hread.trans hbefore⟩, h.reads, h.two_le, h.resume_lt, h.points⟩

theorem from_run (levels : Nat) (hend : w.Terminated) (hk : w.current.kind ≠ .eof) :
    From grammar w (run (grammar.stmt (grammar.partsAt levels)) w) := by
  have hforward := grammar.forward_stmt levels
  have hlt := length_resume_lt hforward hend hk
  have hpos := Window.length_pos (run (grammar.stmt (grammar.partsAt levels)) w).resume
  rw [run_eq] at hlt hpos ⊢
  refine ⟨⟨[], .refl w⟩, hforward w, Nat.lt_of_le_of_lt hpos hlt, hlt, fun diagnostic hresult => ?_⟩
  simp only [Parse.result] at hresult
  unfold Parse.stop
  cases hrun : grammar.stmt (grammar.partsAt levels) w with
  | ok statement stop =>
      rw [hrun] at hresult
      cases hresult
  | error diagnostic' stop =>
      rw [hrun] at hresult
      cases hresult
      exact grammar.blames_stmt levels hrun

theorem blamedIn?_of_error {diagnostic : Diagnostic} (h : attempt.result = .error diagnostic) :
    attempt.blamedIn? whole = some ((diagnostic.blamed attempt.stop).indexIn whole) := by
  simp [blamedIn?, diagnostic?, h]

theorem exists_of_blamedIn? {index : Nat} (h : attempt.blamedIn? whole = some index) :
    ∃ diagnostic, attempt.result = .error diagnostic ∧
      (diagnostic.blamed attempt.stop).indexIn whole = index := by
  cases hresult : attempt.result with
  | ok statement => simp [blamedIn?, diagnostic?, hresult] at h
  | error diagnostic =>
      rw [blamedIn?_of_error hresult] at h
      exact ⟨diagnostic, rfl, Option.some.inj h⟩

-- The token that is blamed is the one that stands there.
theorem From.getElem?_blamed (h : From grammar whole attempt) {diagnostic : Diagnostic}
    (hresult : attempt.result = .error diagnostic) :
    whole.toList[(diagnostic.blamed attempt.stop).indexIn whole]? = some diagnostic.token := by
  obtain ⟨before, hbefore⟩ := h.before
  obtain ⟨read, hread⟩ := h.reads
  obtain ⟨last, hlast⟩ := diagnostic.reads_blamed attempt.stop
  rw [((hbefore.trans hread).trans hlast).getElem?_indexIn, (h.points _ hresult).current_blamed]

-- The windows of two tries one behind the other, and of what they are blamed on, in their order.
theorem From.length_blamed_le (h : From grammar whole first) (h' : From grammar whole second)
    (hread : ∃ tokens, first.resume.Reads tokens second.start) (blamed blamed' : Diagnostic) :
    (blamed'.blamed second.stop).length ≤ second.stop.length ∧
      second.stop.length ≤ second.start.length ∧ second.start.length ≤ first.resume.length ∧
      first.resume.length ≤ (blamed.blamed first.stop).length ∧
      (blamed.blamed first.stop).length ≤ whole.length := by
  obtain ⟨between, hbetween⟩ := hread
  obtain ⟨read, hstop⟩ := h'.reads
  obtain ⟨before, hbefore⟩ := h.before
  obtain ⟨read', hstop'⟩ := h.reads
  obtain ⟨skipped, hskip⟩ := first.reads_next_resume
  have hresume := hskip.length_le
  have hblamed := blamed.length_blamed first.stop
  have hblamed' := blamed'.length_blamed second.stop
  have hle := hbefore.length_le
  have hle' := hstop'.length_le
  exact ⟨hblamed'.2, hstop.length_le, hbetween.length_le, by omega, by omega⟩

theorem From.repeats (h : From grammar whole first) (h' : From grammar whole second)
    (hread : ∃ tokens, first.resume.Reads tokens second.start) {index : Nat}
    (hfirst : first.blamedIn? whole = some index) (hsecond : second.blamedIn? whole = some index) :
    first.Repeats second := by
  obtain ⟨diagnostic, hresult, rfl⟩ := exists_of_blamedIn? hfirst
  obtain ⟨diagnostic', hresult', hindex⟩ := exists_of_blamedIn? hsecond
  obtain ⟨hblamed', hstop, hstart, hresume, hblamed⟩ :=
    h.length_blamed_le h' hread diagnostic diagnostic'
  have htwo := h'.two_le
  unfold Window.indexIn at hindex
  refine ⟨?_, ⟨diagnostic, hresult, ?_⟩, ⟨diagnostic', hresult', ?_⟩, ?_⟩
  · obtain ⟨between, hbetween⟩ := hread
    exact hbetween.eq_of_length_le (by omega)
  · cases hahead : diagnostic.isAhead with
    | true => rfl
    | false =>
        -- the next try would begin behind the token
        obtain ⟨skipped, hskip⟩ := first.reads_next_resume
        have hnext := first.stop.length_next
        have hle := hskip.length_le
        simp only [Diagnostic.blamed, hahead, Bool.false_eq_true, if_false] at *
        omega
  · cases hahead : diagnostic'.isAhead with
    | false => rfl
    | true =>
        -- the token would be behind the one the try began with
        have hnext := second.stop.length_next
        simp only [Diagnostic.blamed, hahead, if_true] at *
        omega
  · obtain ⟨read, hread⟩ := h'.reads
    exact hread.eq_of_length_le (by omega)

-- The second of two such failures cannot be the first of two.
theorem count_blamedIn?_le {attempts : List Attempt}
    (h : attempts.Pairwise fun first second => ∀ index, first.blamedIn? whole = some index →
      second.blamedIn? whole = some index → first.Repeats second) (index : Nat) :
    (attempts.filterMap (blamedIn? whole)).count index ≤ 2 := by
  let failing := attempts.filter fun attempt => attempt.blamedIn? whole == some index
  have hcount : (attempts.filterMap (blamedIn? whole)).count index = failing.length := by
    rw [List.count, List.countP_filterMap, List.countP_eq_length_filter]
    congr 1
    refine List.filter_congr fun attempt _ => ?_
    cases attempt.blamedIn? whole <;> simp
  have hfailing : failing.Pairwise Repeats := by
    refine (h.filter _).imp_of_mem fun hfirst hsecond hrepeats => ?_
    exact hrepeats index (beq_iff_eq.mp (List.mem_filter.mp hfirst).2)
      (beq_iff_eq.mp (List.mem_filter.mp hsecond).2)
  rw [hcount]
  match failing, hfailing with
  | [], _ | [_], _ | [_, _], _ => simp
  | first :: second :: third :: rest, hfailing =>
      obtain ⟨hfirst, hrest⟩ := List.pairwise_cons.mp hfailing
      obtain ⟨hsecond, -⟩ := List.pairwise_cons.mp hrest
      obtain ⟨diagnostic, hresult, hhere⟩ := (hfirst second (by simp)).here
      obtain ⟨diagnostic', hresult', hahead⟩ := (hsecond third (by simp)).ahead
      rw [hresult] at hresult'
      cases hresult'
      rw [hhere] at hahead
      cases hahead

-- What follows a `let` is blamed by the statement that it does not fit and by its own.
example :
    let whole := Window.ofTokens [⟨.kwLet, "let"⟩, ⟨.closeParen, ")"⟩]
    (Grammar.standard.attempts maxNesting whole).filterMap (blamedIn? whole) = [1, 1] := by
  decide

end Attempt

namespace Grammar

variable (grammar : Grammar) (levels : Nat) {w : Window}

theorem attempts_from (hend : w.Terminated) :
    (∀ attempt ∈ grammar.attempts levels w, attempt.From grammar w) ∧
      (grammar.attempts levels w).Pairwise fun first second =>
        ∃ tokens, first.resume.Reads tokens second.start := by
  refine @attempts_induction grammar levels w
    (fun w attempts => (∀ attempt ∈ attempts, attempt.From grammar w) ∧
      attempts.Pairwise fun first second => ∃ tokens, first.resume.Reads tokens second.start)
    ?_ ?_ hend
  · intro w hk
    exact ⟨by simp, .nil⟩
  · rintro w rest hend hk ⟨hfrom, hpairwise⟩
    obtain ⟨tokens, hread⟩ := Attempt.reads_resume (grammar.forward_stmt levels) w
    constructor
    · refine List.forall_mem_cons.mpr ⟨Attempt.from_run levels hend hk, fun attempt hmem => ?_⟩
      exact (hfrom attempt hmem).trans hread
    · exact .cons (fun attempt hmem => (hfrom attempt hmem).before) hpairwise

-- Each try takes a token, and the end of input is left.
theorem length_attempts_lt (hend : w.Terminated) :
    (grammar.attempts levels w).length < w.length := by
  refine @attempts_induction grammar levels w (fun w attempts => attempts.length < w.length) ?_ ?_
    hend
  · intro w hk
    exact w.length_pos
  · intro w rest hend hk hrest
    have hlt := Attempt.length_resume_lt (grammar.forward_stmt levels) hend hk
    simp only [List.length_cons]
    omega

theorem pairwise_start_attempts (hend : w.Terminated) :
    ((grammar.attempts levels w).map fun attempt => attempt.start.indexIn w).Pairwise (· < ·) := by
  obtain ⟨hfrom, hpairwise⟩ := grammar.attempts_from levels hend
  refine List.pairwise_map.mpr (hpairwise.imp_of_mem ?_)
  rintro first second hfirst - ⟨read, hread⟩
  obtain ⟨before, hbefore⟩ := (hfrom first hfirst).before
  have hle := hbefore.length_le
  have hle' := hread.length_le
  have hlt := (hfrom first hfirst).resume_lt
  unfold Window.indexIn
  omega

theorem pairwise_blamedIn?_attempts (hend : w.Terminated) :
    ((grammar.attempts levels w).filterMap (Attempt.blamedIn? w)).Pairwise (· ≤ ·) := by
  obtain ⟨hfrom, hpairwise⟩ := grammar.attempts_from levels hend
  refine List.pairwise_filterMap.mpr (hpairwise.imp_of_mem ?_)
  intro first second hfirst hsecond hread index hindex index' hindex'
  obtain ⟨diagnostic, -, rfl⟩ := Attempt.exists_of_blamedIn? hindex
  obtain ⟨diagnostic', -, rfl⟩ := Attempt.exists_of_blamedIn? hindex'
  have horder := (hfrom _ hfirst).length_blamed_le (hfrom _ hsecond) hread diagnostic diagnostic'
  unfold Window.indexIn
  omega

theorem pairwise_repeats_attempts (hend : w.Terminated) :
    (grammar.attempts levels w).Pairwise fun first second => ∀ index,
      first.blamedIn? w = some index → second.blamedIn? w = some index →
      first.Repeats second := by
  obtain ⟨hfrom, hpairwise⟩ := grammar.attempts_from levels hend
  refine hpairwise.imp_of_mem fun hfirst hsecond hread index hindex hindex' => ?_
  exact (hfrom _ hfirst).repeats (hfrom _ hsecond) hread hindex hindex'

end Grammar

theorem Report.length_ofAttempts (attempts : List Attempt) :
    (ofAttempts attempts).program.statements.length + (ofAttempts attempts).diagnostics.length =
      attempts.length := by
  induction attempts with
  | nil => rfl
  | cons attempt attempts ih =>
      rw [ofAttempts_cons, List.length_cons, ← ih]
      cases attempt.result with
      | ok statement => exact Nat.add_right_comm _ _ _
      | error diagnostic => exact (Nat.add_assoc _ _ _).symm

-- Reading a program comes to its end, by any rules and on any tokens. Each try begins behind the
-- one before it, so there are no more of them than tokens. The tokens that are blamed come in their
-- order, and one of them is blamed at most twice.
theorem Session.program_positions (grammar : Grammar) (tokens : List Token) :
    let session := Session.start grammar tokens
    let whole := session.window
    let attempts := grammar.attempts session.levels whole
    let report := session.program.1
    (∃ cost, ∀ more, Clocked.program grammar session.levels ⟨whole, cost + more⟩ =
        .ok (attempts.map Attempt.result) ⟨session.program.2.window, more⟩) ∧
      report = .ofAttempts attempts ∧
      (∀ attempt ∈ attempts, whole.toList.drop (attempt.start.indexIn whole) =
        attempt.start.toList) ∧
      (attempts.map fun attempt => attempt.start.indexIn whole).Pairwise (· < ·) ∧
      report.program.statements.length + report.diagnostics.length ≤ tokens.length ∧
      (∀ attempt ∈ attempts, ∀ diagnostic, attempt.result = .error diagnostic →
        ∃ index, attempt.blamedIn? whole = some index ∧
          whole.toList[index]? = some diagnostic.token) ∧
      (attempts.filterMap (Attempt.blamedIn? whole)).Pairwise (· ≤ ·) ∧
      (∀ index, (attempts.filterMap (Attempt.blamedIn? whole)).count index ≤ 2) ∧
      attempts.Pairwise fun first second => ∀ index, first.blamedIn? whole = some index →
        second.blamedIn? whole = some index → first.Repeats second := by
  intro session whole attempts report
  have hend : whole.Terminated := Window.terminated_ofTokens tokens
  obtain ⟨hfrom, -⟩ := grammar.attempts_from session.levels hend
  have hrepeats := grammar.pairwise_repeats_attempts session.levels hend
  refine ⟨Clocked.exists_program_eq_ok grammar session.levels hend, rfl, ?_,
    grammar.pairwise_start_attempts session.levels hend, ?_, ?_,
    grammar.pairwise_blamedIn?_attempts session.levels hend,
    Attempt.count_blamedIn?_le hrepeats, hrepeats⟩
  · intro attempt hmem
    obtain ⟨before, hbefore⟩ := (hfrom attempt hmem).before
    exact hbefore.drop_indexIn
  · have hlength : whole.length ≤ tokens.length + 1 := Window.length_ofTokens tokens
    have hlt : attempts.length < whole.length := grammar.length_attempts_lt session.levels hend
    calc
      report.program.statements.length + report.diagnostics.length = attempts.length :=
        Report.length_ofAttempts attempts
      _ ≤ tokens.length := by omega
  · intro attempt hmem diagnostic hresult
    exact ⟨_, Attempt.blamedIn?_of_error hresult, (hfrom attempt hmem).getElem?_blamed hresult⟩

end ScriptFront
