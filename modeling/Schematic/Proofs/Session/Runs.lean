import Schematic.Proofs.Session.Reachable

/-! Runs of steps. Something can be asked of every step at its turn, and every step can put something on
    a list; what one step keeps of the session and the list, a run keeps. Every session that steps lead
    to comes of a run from a fresh one. -/

namespace Schematic

namespace Step

variable {α : Type} {p q : Session → Step → Prop} {f : Session → Step → List α}

/-- Each step has the property when its turn comes. -/
def Throughout (p : Session → Step → Prop) : Session → List Step → Prop
  | _, [] => True
  | s, t :: ts => p s t ∧ Throughout p (t.run s) ts

/-- What the steps put on the list, one after the other. -/
def collect (f : Session → Step → List α) : Session → List Step → List α
  | _, [] => []
  | s, t :: ts => f s t ++ collect f (t.run s) ts

instance decidableThroughout [∀ s t, Decidable (p s t)] :
    (s : Session) → (ts : List Step) → Decidable (Throughout p s ts)
  | _, [] => .isTrue trivial
  | s, t :: ts => @instDecidableAnd _ _ _ (decidableThroughout (t.run s) ts)

theorem Throughout.append : ∀ {ts : List Step} {s : Session} {us : List Step},
    Throughout p s ts → Throughout p (ts.foldl run s) us → Throughout p s (ts ++ us)
  | [], _, _, _, h => h
  | _ :: _, _, _, h, h' => ⟨h.1, h.2.append h'⟩

theorem Throughout.reachable : ∀ {ts : List Step} {s : Session}, Throughout Fits s ts →
    s.Reachable → (ts.foldl run s).Reachable
  | [], _, _, hs => hs
  | t :: _, _, h, hs => h.2.reachable (.step t hs h.1)

/-- What a step keeps of the session and the list, a run keeps. -/
theorem collect_keeps {P : Session → List α → Prop}
    (hstep : ∀ {s t as}, s.Reachable → t.Fits s → p s t → P s as → P (t.run s) (as ++ f s t)) :
    ∀ {ts : List Step} {s : Session} {as : List α}, s.Reachable →
      Throughout Fits s ts → Throughout p s ts → P s as →
      P (ts.foldl run s) (as ++ collect f s ts)
  | [], _, _, _, _, _, h => by
    rw [collect, List.append_nil]
    exact h
  | t :: _, _, _, hs, hfits, hp, h => by
    rw [collect, ← List.append_assoc]
    exact collect_keeps hstep (.step t hs hfits.1) hfits.2 hp.2 (hstep hs hfits.1 hp.1 h)

end Step

namespace Session

/-- The steps, each of which speaks of elements that are there, make the session of a fresh one. -/
def MadeBy (s : Session) (theme : Theme) (ts : List Step) : Prop :=
  Step.Throughout Step.Fits (fresh theme) ts ∧ ts.foldl Step.run (fresh theme) = s

theorem Reachable.madeBy {s : Session} (h : s.Reachable) : ∃ theme ts, s.MadeBy theme ts := by
  induction h with
  | fresh theme => exact ⟨theme, [], trivial, rfl⟩
  | step t _ hfits ih =>
    obtain ⟨theme, ts, hts, rfl⟩ := ih
    exact ⟨theme, ts ++ [t], hts.append ⟨hfits, trivial⟩, List.foldl_append⟩

end Session

end Schematic
