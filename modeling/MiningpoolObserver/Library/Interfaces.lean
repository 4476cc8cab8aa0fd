import MiningpoolObserver.Library.CallTree

namespace MiningpoolObserver.Library.Interfaces

open MiningpoolObserver.Library.CallTree

variable {S T : Signature} {σ α : Type}

/-- The calls of two interfaces. -/
def both (S T : Signature) : Signature where
  Call := S.Call ⊕ T.Call
  Reply := Sum.elim S.Reply T.Reply

/-- A program of the first interface, among those of both. -/
def left : Prog S α → Prog (both S T) α
  | .done a => .done a
  | .call c k => .call (.inl c) (fun r => left (k r))

def right : Prog T α → Prog (both S T) α
  | .done a => .done a
  | .call c k => .call (.inr c) (fun r => right (k r))

/-- Both interfaces answer from one state, which changes for both alike. -/
def answering (E : Environment S σ) (F : Environment T σ) : Environment (both S T) σ where
  drift := E.drift
  answer s c := match c with
    | .inl c => E.answer s c
    | .inr c => F.answer s c
  drift_refl := E.drift_refl
  drift_trans := E.drift_trans

variable {E : Environment S σ} {F : Environment T σ} {s t : σ} {a : α}

/-- What a program does among both interfaces, it does with its own. -/
theorem exec_left {p : Prog S α} {tr : List (Event (both S T) σ)}
    (h : Exec (answering E F) (left p) s tr a t) : ∃ tr', Exec E p s tr' a t := by
  induction p generalizing s tr with
  | done b =>
    obtain ⟨-, rfl, hd⟩ := Exec.done_iff.mp h
    exact ⟨[], Exec.done_iff.mpr ⟨rfl, rfl, hd⟩⟩
  | call c k ih =>
    obtain ⟨w, r, u, tr₁, -, hd, ha, hk⟩ := Exec.call_iff.mp h
    obtain ⟨tr', hx⟩ := ih r hk
    exact ⟨_, Exec.call_iff.mpr ⟨w, r, u, tr', rfl, hd, ha, hx⟩⟩

theorem exec_right (hdrift : E.drift = F.drift) {p : Prog T α}
    {tr : List (Event (both S T) σ)} (h : Exec (answering E F) (right p) s tr a t) :
    ∃ tr', Exec F p s tr' a t := by
  induction p generalizing s tr with
  | done b =>
    obtain ⟨-, rfl, hd⟩ := Exec.done_iff.mp h
    exact ⟨[], Exec.done_iff.mpr ⟨rfl, rfl, hdrift ▸ hd⟩⟩
  | call c k ih =>
    obtain ⟨w, r, u, tr₁, -, hd, ha, hk⟩ := Exec.call_iff.mp h
    obtain ⟨tr', hx⟩ := ih r hk
    exact ⟨_, Exec.call_iff.mpr ⟨w, r, u, tr', rfl, hdrift ▸ hd, ha, hx⟩⟩

variable {Q : α → σ → Prop}

theorem ensures_left {p : Prog S α} (h : Ensures E p s Q) :
    Ensures (answering E F) (left p) s Q := by
  intro tr a t hx
  obtain ⟨tr', hx⟩ := exec_left hx
  exact h tr' a t hx

theorem ensures_right (hdrift : E.drift = F.drift) {p : Prog T α} (h : Ensures F p s Q) :
    Ensures (answering E F) (right p) s Q := by
  intro tr a t hx
  obtain ⟨tr', hx⟩ := exec_right hdrift hx
  exact h tr' a t hx

end MiningpoolObserver.Library.Interfaces
