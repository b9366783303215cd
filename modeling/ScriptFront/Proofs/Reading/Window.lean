import ScriptFront.Parse.Window

namespace ScriptFront.Window

-- The window has moved over these tokens. The last of them is now current.
def Reads (start : Window) (tokens : List Token) (stop : Window) : Prop :=
  start.upcoming = tokens ++ stop.upcoming ∧ stop.current = tokens.getLastD start.current

-- The last token of the list is an end of input. There may be more of them before it.
def Terminated (w : Window) : Prop :=
  (w.upcoming.getLastD w.current).kind = .eof

theorem Reads.refl (w : Window) : w.Reads [] w := ⟨rfl, rfl⟩

theorem Reads.trans {start between stop : Window} {first second : List Token}
    (h : start.Reads first between) (h' : between.Reads second stop) :
    start.Reads (first ++ second) stop := by
  obtain ⟨hu, hc⟩ := h
  obtain ⟨hu', hc'⟩ := h'
  refine ⟨by rw [hu, hu', List.append_assoc], ?_⟩
  rw [hc', hc]
  cases second with
  | nil => simp
  | cons token rest =>
      rw [List.getLastD_cons, List.getLastD_eq_getLast?, List.getLastD_eq_getLast?,
        List.getLast?_append, List.getLast?_cons]
      rfl

theorem Reads.eq_of_nil {start stop : Window} (h : start.Reads [] stop) : stop = start := by
  obtain ⟨current, upcoming⟩ := start
  obtain ⟨current', upcoming'⟩ := stop
  obtain ⟨hu, hc⟩ := h
  simp only [List.nil_append, List.getLastD_nil] at hu hc
  rw [hu, hc]

theorem Reads.of_cons {start stop : Window} {token : Token} {tokens : List Token}
    (h : start.Reads (token :: tokens) stop) :
    start.peek = token ∧ start.next.Reads tokens stop := by
  obtain ⟨hu, hc⟩ := h
  rw [List.cons_append] at hu
  rw [List.getLastD_cons] at hc
  unfold peek next Reads
  rw [hu]
  exact ⟨rfl, rfl, hc⟩

theorem Reads.of_append {start stop : Window} {first second : List Token}
    (h : start.Reads (first ++ second) stop) :
    ∃ between, start.Reads first between ∧ between.Reads second stop := by
  induction first generalizing start with
  | nil => exact ⟨start, .refl start, h⟩
  | cons token rest ih =>
      obtain ⟨hpeek, hrest⟩ := h.of_cons
      obtain ⟨between, hfirst, hsecond⟩ := ih hrest
      refine ⟨between, ?_, hsecond⟩
      have hu : start.upcoming = token :: start.next.upcoming := by
        rw [h.1, hrest.1]
        rfl
      refine ⟨by rw [hu, hfirst.1, List.cons_append], ?_⟩
      rw [hfirst.2, List.getLastD_cons, current_next, hpeek]

-- Moving on reads one token, or none at the end.
theorem reads_next (w : Window) : ∃ tokens, w.Reads tokens w.next := by
  obtain ⟨current, upcoming⟩ := w
  cases upcoming with
  | nil => exact ⟨[], rfl, rfl⟩
  | cons token rest => exact ⟨[token], rfl, rfl⟩

theorem Reads.length_le {start stop : Window} {tokens : List Token}
    (h : start.Reads tokens stop) : stop.length ≤ start.length := by
  have hlength := congrArg List.length h.1
  rw [List.length_append] at hlength
  unfold length
  omega

theorem Reads.terminated {start stop : Window} {tokens : List Token}
    (h : start.Reads tokens stop) (hend : start.Terminated) : stop.Terminated := by
  obtain ⟨hu, hc⟩ := h
  unfold Terminated at hend ⊢
  rw [hc]
  rw [hu] at hend
  cases hs : stop.upcoming with
  | nil => simpa [hs] using hend
  | cons token rest =>
      rw [hs] at hend
      simpa [List.getLastD_eq_getLast?, List.getLast?_append, List.getLast?_cons] using hend

theorem Terminated.next {w : Window} (hend : w.Terminated) : w.next.Terminated := by
  obtain ⟨tokens, hread⟩ := w.reads_next
  exact hread.terminated hend

-- Only the last token may stand without another one behind it.
theorem Terminated.exists_upcoming {w : Window} (hend : w.Terminated)
    (hk : w.current.kind ≠ .eof) : ∃ token rest, w.upcoming = token :: rest := by
  cases hu : w.upcoming with
  | nil =>
      unfold Terminated at hend
      rw [hu] at hend
      exact absurd hend hk
  | cons token rest => exact ⟨token, rest, rfl⟩

-- What is seen behind the current token stands there, unless it is the end of input.
theorem Terminated.exists_peek {w : Window} (hend : w.Terminated) (hk : w.peek.kind ≠ .eof) :
    ∃ rest, w.upcoming = w.peek :: rest := by
  unfold peek at hk ⊢
  cases hu : w.upcoming with
  | nil =>
      unfold Terminated at hend
      rw [hu] at hend hk
      exact absurd hend hk
  | cons token rest => exact ⟨rest, rfl⟩

theorem reads_peek {w : Window} (hend : w.Terminated) (hk : w.peek.kind ≠ .eof) :
    w.Reads [w.peek] w.next := by
  obtain ⟨rest, hu⟩ := hend.exists_peek hk
  unfold Reads next
  rw [hu]
  exact ⟨rfl, rfl⟩

theorem length_next_lt {w : Window} {token : Token} {rest : List Token}
    (hu : w.upcoming = token :: rest) : w.next.length < w.length := by
  simp [next, length, hu]

-- So both a current token and a next token other than the end of input leave room to move on.
theorem Terminated.length_next_lt {w : Window} (hend : w.Terminated)
    (hk : w.current.kind ≠ .eof ∨ w.peek.kind ≠ .eof) : w.next.length < w.length := by
  obtain ⟨token, rest, hu⟩ : ∃ token rest, w.upcoming = token :: rest := by
    cases hk with
    | inl hk => exact hend.exists_upcoming hk
    | inr hk => exact ⟨w.peek, hend.exists_peek hk⟩
  exact Window.length_next_lt hu

-- Reading that starts before the end of input leaves tokens behind once one more is dropped.
theorem Reads.length_next_lt {start stop : Window} {tokens : List Token}
    (h : start.Reads tokens stop) (hend : start.Terminated) (hk : start.current.kind ≠ .eof) :
    stop.next.length < start.length := by
  have hle := h.length_le
  cases hu : stop.upcoming with
  | cons token rest =>
      have hlt := Window.length_next_lt hu
      omega
  | nil =>
      obtain ⟨token, rest, hstart⟩ := hend.exists_upcoming hk
      simp only [next, hu, length, hstart, List.length_nil, List.length_cons]
      omega

-- Moving on drops tokens from the front, as long as there is one to move on to.
theorem toList_next {w : Window} (h : 1 < w.length) : w.next.toList = w.toList.tail := by
  obtain ⟨current, upcoming⟩ := w
  cases upcoming with
  | nil => exact absurd h (by simp [length])
  | cons token rest => rfl

theorem toList_repeat_next (w : Window) {position : Nat} (h : position < w.length) :
    (Nat.repeat next position w).toList = w.toList.drop position := by
  induction position with
  | zero => rfl
  | succ position ih =>
      have hprevious := ih (by omega)
      have hlength : 1 < (Nat.repeat next position w).length := by
        rw [← length_toList, hprevious, List.length_drop, length_toList]
        omega
      have hnext := toList_next hlength
      rw [hprevious, List.tail_drop] at hnext
      exact hnext

theorem terminated_ofTokens (tokens : List Token) : (ofTokens tokens).Terminated := by
  cases tokens with
  | nil => rfl
  | cons token rest =>
      simp only [ofTokens]
      split
      · assumption
      · simp [Terminated, Token.eof]

theorem current_ofTokens (token : Token) (tokens : List Token) :
    (ofTokens (token :: tokens)).current = token := by
  simp only [ofTokens]
  split <;> rfl

theorem toList_ofTokens_concat (front : List Token) (last : Token) :
    (ofTokens (front ++ [last])).toList =
      if last.kind = .eof then front ++ [last] else front ++ [last, .eof] := by
  have hofTokens : (ofTokens (front ++ [last])).toList =
      if last.kind = .eof then front ++ [last] else (front ++ [last]) ++ [.eof] := by
    cases front with
    | nil => by_cases hlast : last.kind = .eof <;> simp [ofTokens, toList, hlast]
    | cons token front => by_cases hlast : last.kind = .eof <;> simp [ofTokens, toList, hlast]
  simpa using hofTokens

-- The end of input that a list lacks is added to it.
theorem toList_ofTokens {tokens : List Token} (h : ∀ token ∈ tokens, token.kind ≠ .eof) :
    (ofTokens tokens).toList = tokens ++ [.eof] := by
  obtain rfl | ⟨front, last, rfl⟩ := List.eq_nil_or_concat tokens
  · rfl
  · rw [List.concat_eq_append] at h ⊢
    rw [toList_ofTokens_concat, if_neg (h last (by simp))]
    simp

-- What is put behind a list without an end of input is opened as it would be on its own.
theorem toList_ofTokens_append {first : List Token} (h : ∀ token ∈ first, token.kind ≠ .eof)
    (rest : List Token) : (ofTokens (first ++ rest)).toList = first ++ (ofTokens rest).toList := by
  obtain rfl | ⟨front, last, rfl⟩ := List.eq_nil_or_concat rest
  · rw [List.append_nil, toList_ofTokens h]
    rfl
  · rw [List.concat_eq_append, ← List.append_assoc, toList_ofTokens_concat, toList_ofTokens_concat]
    split <;> simp

-- Reading starts behind a window that has all the tokens in front of it, and goes on behind one
-- that has only the second part of them.
theorem exists_before {first : List Token} (h : ∀ token ∈ first, token.kind ≠ .eof)
    (rest : List Token) :
    ∃ w stop : Window, w.Terminated ∧ w.Reads first stop ∧ w.next = ofTokens (first ++ rest) ∧
      stop.next = ofTokens rest := by
  refine ⟨⟨.eof, (ofTokens (first ++ rest)).toList⟩, ⟨first.getLastD .eof, (ofTokens rest).toList⟩,
    ?_, ⟨toList_ofTokens_append h rest, rfl⟩, rfl, rfl⟩
  simp only [Terminated, toList, List.getLastD_cons]
  exact terminated_ofTokens _

theorem toList_inj {w w' : Window} (h : w.toList = w'.toList) : w = w' := by
  obtain ⟨current, upcoming⟩ := w
  obtain ⟨current', upcoming'⟩ := w'
  obtain ⟨rfl, rfl⟩ := List.cons.inj h
  rfl

-- So it makes no difference whether it is there.
theorem ofTokens_concat_eof {tokens : List Token} (h : ∀ token ∈ tokens, token.kind ≠ .eof) :
    ofTokens (tokens ++ [.eof]) = ofTokens tokens := by
  apply toList_inj
  rw [toList_ofTokens h, toList_ofTokens_concat]
  exact if_pos rfl

end ScriptFront.Window
