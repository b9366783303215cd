import ScriptFront.Proofs.Reading.Forward

namespace ScriptFront

open Reader Parse

-- An expression that is opened: how many are open with it, and the window it starts at.
structure Opening where
  depth : Nat
  window : Window

-- Reading under watch. Besides the window there is the number of expressions open at the moment,
-- and every opening so far, the earliest first.
structure Watch where
  window : Window
  depth : Nat
  openings : List Opening

namespace Watch

def start (w : Window) : Watch := ⟨w, 0, []⟩

-- Nothing ever keeps an expression from being opened.
def enter (watch : Watch) : Watch :=
  ⟨watch.window, watch.depth + 1, watch.openings ++ [⟨watch.depth + 1, watch.window⟩]⟩

def leave (watch : Watch) : Watch :=
  { watch with depth := watch.depth - 1 }

end Watch

abbrev Watched := EStateM Diagnostic Watch

instance : Reader Watched where
  window := fun watch => .ok watch.window watch
  advance := fun watch => .ok () { watch with window := watch.window.next }
  fail := fun diagnostic watch => .error diagnostic watch

namespace Watched

variable {α β : Type}

-- Whatever comes of an expression, it is closed again.
def opened (x : Watched α) : Watched α := fun watch =>
  match x watch.enter with
  | .ok value stop => .ok value stop.leave
  | .error diagnostic stop => .error diagnostic stop.leave

theorem bind_apply (x : Watched α) (f : α → Watched β) (watch : Watch) :
    (x >>= f) watch =
      match x watch with
      | .ok value stop => f value stop
      | .error diagnostic stop => .error diagnostic stop := by
  simp only [bind, EStateM.bind]
  cases x watch <;> rfl

-- The result of a run, and the watch at its end.
def run (x : Watched α) (watch : Watch) : Except Diagnostic α × Watch :=
  match x watch with
  | .ok value stop => (.ok value, stop)
  | .error diagnostic stop => (.error diagnostic, stop)

end Watched

-- Expressions without a limit on how many are open at once. An expression inside another one
-- starts behind it, so the tokens left are fuel enough.
def Grammar.unguarded (grammar : Grammar) (fuel : Nat) (limit : Precedence) : Watched Expr :=
  match fuel with
  | 0 => blame fun _ => .tooDeep 0
  | fuel + 1 => Watched.opened (grammar.nested (grammar.parts (grammar.unguarded fuel)) limit)

-- A later watch: more has been opened and all of it closed again, and the window has moved on.
structure Watch.Extends (watch : Watch) (new : List Opening) (stop : Watch) : Prop where
  depth : stop.depth = watch.depth
  openings : stop.openings = watch.openings ++ new
  reads : ∃ tokens, watch.window.Reads tokens stop.window

namespace Watch.Extends

variable {watch between stop : Watch} {new new' : List Opening}

theorem refl (watch : Watch) : watch.Extends [] watch :=
  ⟨rfl, (List.append_nil _).symm, [], .refl _⟩

theorem trans (h : watch.Extends new between) (h' : between.Extends new' stop) :
    watch.Extends (new ++ new') stop := by
  obtain ⟨tokens, hread⟩ := h.reads
  obtain ⟨tokens', hread'⟩ := h'.reads
  refine ⟨h'.depth.trans h.depth, ?_, tokens ++ tokens', hread.trans hread'⟩
  rw [h'.openings, h.openings, List.append_assoc]

theorem length_le (h : watch.Extends new stop) : stop.window.length ≤ watch.window.length := by
  obtain ⟨tokens, hread⟩ := h.reads
  exact hread.length_le

theorem terminated (h : watch.Extends new stop) (hend : watch.window.Terminated) :
    stop.window.Terminated := by
  obtain ⟨tokens, hread⟩ := h.reads
  exact hread.terminated hend

-- What happens between entering and leaving is one more opening, followed by those inside it.
theorem leave (h : watch.enter.Extends new stop) :
    watch.Extends (⟨watch.depth + 1, watch.window⟩ :: new) stop.leave := by
  refine ⟨?_, ?_, h.reads⟩
  · have hdepth := h.depth
    simp only [Watch.leave, enter] at hdepth ⊢
    omega
  · have hopenings := h.openings
    simp only [Watch.leave, enter] at hopenings ⊢
    rw [hopenings, List.append_assoc, List.singleton_append]

end Watch.Extends

end ScriptFront
