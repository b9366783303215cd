import ScriptFront.Proofs.Reading.Window

namespace ScriptFront

-- The token of a kind whose text does not vary.
def Token.fixed (kind : TokenKind) : Token := ⟨kind, kind.spelling⟩

namespace Window

variable {start between stop w : Window} {tokens tokens' : List Token}

-- An end of input stands at the end and nowhere before it.
def Clean (w : Window) : Prop :=
  ∃ body last, w.toList = body ++ [last] ∧ last.kind = .eof ∧ ∀ token ∈ body, token.kind ≠ .eof

theorem Clean.terminated (h : w.Clean) : w.Terminated := by
  obtain ⟨body, last, hlist, hlast, -⟩ := h
  have hlistLast : w.toList.getLast? = some last := by simp [hlist]
  unfold Terminated
  rw [List.getLastD_eq_getLast?]
  simp only [toList, List.getLast?_cons, Option.some.injEq] at hlistLast
  rw [hlistLast]
  exact hlast

theorem Reads.suffix (h : start.Reads tokens stop) : stop.toList <:+ start.toList := by
  obtain ⟨hu, hc⟩ := h
  cases htokens : tokens.getLast? with
  | none =>
      rw [List.getLast?_eq_none_iff] at htokens
      subst htokens
      simp only [toList, hc, hu, List.getLastD_nil, List.nil_append]
      exact List.suffix_refl _
  | some last =>
      obtain ⟨front, rfl⟩ := List.getLast?_eq_some_iff.mp htokens
      refine ⟨start.current :: front, ?_⟩
      simp [toList, hu, hc]

theorem Reads.clean (h : start.Reads tokens stop) (hclean : start.Clean) : stop.Clean := by
  obtain ⟨body, last, hlist, hlast, hbody⟩ := hclean
  have hsuffix := h.suffix
  rw [hlist, List.suffix_concat_iff] at hsuffix
  obtain hnil | ⟨rest, hrest, hsuffix⟩ := hsuffix
  · cases hnil
  · exact ⟨rest, last, hrest, hlast, fun token hmem => hbody token (hsuffix.subset hmem)⟩

-- So nothing stands behind it.
theorem Clean.upcoming_eq_nil (h : w.Clean) (hk : w.current.kind = .eof) : w.upcoming = [] := by
  obtain ⟨body, last, hlist, -, hbody⟩ := h
  cases body with
  | nil => simpa [toList] using congrArg List.tail hlist
  | cons token body =>
      have hhead : w.current = token := by simpa [toList] using congrArg List.head? hlist
      exact absurd hk (hhead ▸ hbody token List.mem_cons_self)

-- The window has moved over these tokens, of which the last ones may be missing closing braces at
-- the end of input.
inductive Takes (start : Window) : List Token → Window → Prop where
  | whole {tokens : List Token} {stop : Window} (hread : start.Reads tokens stop)
      (htokens : ∀ token ∈ tokens, token.kind ≠ .eof) : Takes start tokens stop
  | cut {tokens : List Token} {stop : Window} (missing : Nat)
      (hread : start.Reads (tokens ++ [stop.current]) stop) (hk : stop.current.kind = .eof) :
      Takes start (tokens ++ List.replicate (missing + 1) (.fixed .closeCurly)) stop

theorem Takes.refl (w : Window) : w.Takes [] w :=
  .whole (.refl w) (by simp)

theorem takes_next {token : Token} (h : w.Reads [token] stop) (hk : token.kind ≠ .eof) :
    w.Takes [token] stop :=
  .whole h (by simpa using hk)

theorem Takes.clean (h : start.Takes tokens stop) (hclean : start.Clean) : stop.Clean := by
  cases h with
  | whole hread => exact hread.clean hclean
  | cut _ hread => exact hread.clean hclean

theorem Reads.eq_of_upcoming_eq_nil (h : start.Reads tokens stop) (hu : start.upcoming = []) :
    tokens = [] ∧ stop = start := by
  obtain ⟨hupcoming, hcurrent⟩ := h
  rw [hu, List.nil_eq_append_iff] at hupcoming
  obtain ⟨rfl, hstop⟩ := hupcoming
  obtain ⟨current, upcoming⟩ := start
  obtain ⟨current', upcoming'⟩ := stop
  simp_all

-- Where braces are missing nothing more can be taken.
theorem Takes.trans (h : start.Takes tokens between) (h' : between.Takes tokens' stop)
    (hclean : start.Clean) : start.Takes (tokens ++ tokens') stop := by
  cases h with
  | whole hread htokens =>
      cases h' with
      | whole hread' htokens' =>
          exact .whole (hread.trans hread') (List.forall_mem_append.mpr ⟨htokens, htokens'⟩)
      | cut missing hread' hk =>
          rw [← List.append_assoc]
          exact .cut missing (by simpa using hread.trans hread') hk
  | cut missing hread hk =>
      have hu := (hread.clean hclean).upcoming_eq_nil hk
      cases h' with
      | whole hread' =>
          obtain ⟨rfl, rfl⟩ := hread'.eq_of_upcoming_eq_nil hu
          rw [List.append_nil]
          exact .cut missing hread hk
      | cut missing' hread' =>
          obtain ⟨hnil, -⟩ := hread'.eq_of_upcoming_eq_nil hu
          simp at hnil

theorem Reads.current_ne_eof (h : start.Reads tokens stop) (hk : start.current.kind ≠ .eof)
    (htokens : ∀ token ∈ tokens, token.kind ≠ .eof) : stop.current.kind ≠ .eof := by
  rw [h.2]
  cases List.mem_cons.mp List.getLastD_mem_cons with
  | inl hstart => rw [hstart]; exact hk
  | inr hmem => exact htokens _ hmem

-- A block ends with its brace or with one more that is missing.
theorem Takes.close (h : start.Takes tokens w) (hclean : start.Clean)
    (hk : start.current.kind ≠ .eof)
    (hnext : w.next.current.kind = .closeCurly ∨ w.next.current.kind = .eof) :
    ∃ closing : Token, closing.kind = .closeCurly ∧
      start.Takes (tokens ++ [closing]) w.next := by
  have hcleanW := h.clean hclean
  cases hnext with
  | inl hnext =>
      have hpeek : w.peek.kind ≠ .eof := by rw [← w.current_next, hnext]; decide
      have hread : w.Takes [w.peek] w.next := takes_next (reads_peek hcleanW.terminated hpeek) hpeek
      exact ⟨w.peek, by rw [← w.current_next, hnext], h.trans hread hclean⟩
  | inr hnext =>
      refine ⟨.fixed .closeCurly, rfl, ?_⟩
      cases h with
      | whole hread htokens =>
          obtain ⟨token, rest, hu⟩ :=
            hcleanW.terminated.exists_upcoming (hread.current_ne_eof hk htokens)
          have hmove : w.Reads [w.next.current] w.next := by
            unfold next
            rw [hu]
            exact ⟨hu, rfl⟩
          exact .cut 0 (hread.trans hmove) hnext
      | cut missing hread heof =>
          have hu := hcleanW.upcoming_eq_nil heof
          have hstay : w.next = w := by unfold next; rw [hu]
          rw [hstay, List.append_assoc, ← List.replicate_succ']
          exact .cut (missing + 1) hread heof

end Window

end ScriptFront
