import NvmeVirt.Core.Transition

/-!
# Services and their replies

A service takes requests one after the other, and gives each a reply.  What its
clients may rely on is an abstract service that cannot fail.  When every
request that meets a condition gets the reply of the abstract service, and
leads to related states, so does every run of such requests.
-/

namespace NvmeVirt.Replies

open NvmeVirt.Transition

universe u

variable {σ τ ρ : Type u} {α ε : Type*}

/-- The replies to the requests, and the state after them. -/
def serve (step : σ → α → Except ε (ρ × σ)) :
    σ → List α → Except ε (List ρ × σ)
  | s, [] => .ok ([], s)
  | s, request :: requests => do
      let (reply, s) ← step s request
      let (replies, s) ← serve step s requests
      return (reply :: replies, s)

/-- The replies of an abstract service, and its state after them. -/
def answer (spec : τ → α → ρ × τ) : τ → List α → List ρ × τ
  | t, [] => ([], t)
  | t, request :: requests =>
      let (reply, t) := spec t request
      let (replies, t) := answer spec t requests
      (reply :: replies, t)

/-- Every request meets the condition in the states it comes to: those of the
service and of the abstract one. -/
def AllMeet (step : σ → α → Except ε (ρ × σ)) (spec : τ → α → ρ × τ)
    (condition : σ → τ → α → Prop) : σ → τ → List α → Prop
  | _, _, [] => True
  | s, t, request :: requests =>
      condition s t request ∧ ∀ reply s', step s request = .ok (reply, s') →
        AllMeet step spec condition s' (spec t request).2 requests

/-- Under the condition a step replies like the abstract service, and the
relation holds again. -/
def Refines (step : σ → α → Except ε (ρ × σ)) (spec : τ → α → ρ × τ)
    (condition : σ → τ → α → Prop) (related : σ → τ → Prop) : Prop :=
  ∀ s t request, related s t → condition s t request →
    ∃ s', step s request = .ok ((spec t request).1, s') ∧
      related s' (spec t request).2

variable {step : σ → α → Except ε (ρ × σ)} {spec : τ → α → ρ × τ}
  {condition : σ → τ → α → Prop} {related : σ → τ → Prop}

/-- The run lemma. -/
theorem Refines.serve_eq (h : Refines step spec condition related)
    {s : σ} {t : τ} {requests : List α} (hrelated : related s t)
    (hmeet : AllMeet step spec condition s t requests) :
    ∃ s', serve step s requests = .ok ((answer spec t requests).1, s') ∧
      related s' (answer spec t requests).2 := by
  induction requests generalizing s t with
  | nil => exact ⟨s, rfl, hrelated⟩
  | cons request requests ih =>
      obtain ⟨hcondition, hrest⟩ := hmeet
      obtain ⟨after, hstep, hafter⟩ := h s t request hrelated hcondition
      obtain ⟨final, hserve, hfinal⟩ := ih hafter (hrest _ _ hstep)
      refine ⟨final, ?_, hfinal⟩
      rw [serve, hstep, ok_bind]
      dsimp only
      rw [hserve]
      rfl

/-- A condition on the abstract state alone can be checked without the
service. -/
def Admitted (spec : τ → α → ρ × τ) (condition : τ → α → Prop) :
    τ → List α → Prop
  | _, [] => True
  | t, request :: requests =>
      condition t request ∧ Admitted spec condition (spec t request).2 requests

theorem Admitted.allMeet {condition : τ → α → Prop} {s : σ} {t : τ}
    {requests : List α} (h : Admitted spec condition t requests) :
    AllMeet step spec (fun _ => condition) s t requests := by
  induction requests generalizing s t with
  | nil => trivial
  | cons request requests ih => exact ⟨h.1, fun _ _ _ => ih h.2⟩

instance (condition : τ → α → Prop) [∀ t request, Decidable (condition t request)]
    (t : τ) (requests : List α) :
    Decidable (Admitted spec condition t requests) :=
  match requests with
  | [] => isTrue trivial
  | request :: requests =>
      letI := instDecidableAdmitted condition (spec t request).2 requests
      inferInstanceAs (Decidable (_ ∧ _))

end NvmeVirt.Replies
