import Mathlib.Data.List.Forall2
import RenderGraph.Proofs.Operation
import RenderGraph.Replay

/-! Calls that go through. Each one leaves its command in the traffic, and the keys that calls give
back are numbered upwards. -/

namespace RenderGraph

namespace Call

def logged : (c : Call) → c.Reply → Command
  | createList queue, list => .createList list queue
  | resetList list, _ => .resetList list
  | barrier list barriers, _ => .barrier list barriers
  | submit queue list, _ => .submit queue list
  | destroyList list, _ => .destroyList list
  | createResource request, resource => .createResource resource request
  | destroyResource resource, _ => .destroyResource resource
  | createView resource kind spec, view => .createView resource kind view spec
  | freeView kind view, _ => .freeView kind view
  | createFence, fence => .createFence fence
  | signal queue fence value, _ => .signal queue fence value
  | wait queue fence value, _ => .wait queue fence value
  | waitCpu fence value, _ => .waitCpu fence value
  | destroyFence fence, _ => .destroyFence fence

end Call

def Traffic.command? : Traffic → Option Command
  | command sent => some sent
  | _ => none

theorem Device.command_of_respond {d after : Device} {c : Call} {reply : c.Reply}
    {command : Command} (answered : d.respond c = .ok (reply, command, after)) :
    command = c.logged reply := by
  cases c with
  | resetList list | submit queue list =>
    simp only [respond, bind, Except.bind] at answered
    split at answered
    · cases answered
    · first
        | cases answered
          rfl
        | split at answered <;> cases answered
          rfl
  | createResource request | createView resource kind spec =>
    simp only [respond] at answered
    split at answered <;> cases answered
    rfl
  | signal queue fence value | waitCpu fence value =>
    simp only [respond] at answered
    split at answered
    · cases answered
    · split at answered <;> cases answered
      rfl
  | wait queue fence value =>
    simp only [respond] at answered
    split at answered <;> cases answered
    rfl
  | createList | barrier | destroyList | destroyResource | freeView | createFence
    | destroyFence =>
    cases answered
    rfl

namespace Rig

variable {rig after : Rig} {c : Call} {reply : c.Reply}

theorem forward_ok (ran : rig.forward c = (.ok reply, after)) :
    ∃ device, rig.device.respond c = .ok (reply, c.logged reply, device) ∧
      after.device = device.record (c.logged reply) ∧
      after.traffic = rig.traffic.push (.command (c.logged reply)) := by
  unfold forward at ran
  split at ran
  · cases ran
  · split at ran
    · rename_i reply' command device answered
      have logged := Device.command_of_respond answered
      cases ran
      subst logged
      exact ⟨device, answered, rfl, rfl⟩
    · cases ran

theorem call_ok (ran : rig.call c = (.ok reply, after)) :
    ∃ device, rig.device.respond c = .ok (reply, c.logged reply, device) ∧
      after.device = device.record (c.logged reply) ∧
      after.traffic = rig.traffic.push (.command (c.logged reply)) := by
  unfold call at ran
  split at ran
  · exact forward_ok ran
  · split at ran
    · cases ran
    · rename_i faults _
      have forwarded : ({ rig with faults } : Rig).forward c = (.ok reply, after) := ran
      obtain ⟨device, answered, rest⟩ := forward_ok forwarded
      exact ⟨device, answered, rest⟩

end Rig

namespace Op

variable {σ α β : Type} {s after : σ} {rig rig' : Rig}

theorem run_call_ok {c : Call} {reply : c.Reply}
    (ran : (call c : Op σ c.Reply).run s rig = (.ok reply, after, rig')) :
    after = s ∧ ∃ device, rig.device.respond c = .ok (reply, c.logged reply, device) ∧
      rig'.device = device.record (c.logged reply) ∧
      rig'.traffic = rig.traffic.push (.command (c.logged reply)) := by
  simp only [run_call, Prod.mk.injEq] at ran
  rcases ran with ⟨replied, rfl, rfl⟩
  exact ⟨rfl, Rig.call_ok (Prod.ext replied rfl)⟩

theorem traffic_of_call {c : Call} {reply : c.Reply}
    (ran : (call c : Op σ c.Reply).run s rig = (.ok reply, after, rig')) :
    after = s ∧ rig'.traffic.toList = rig.traffic.toList ++ [.command (c.logged reply)] := by
  rcases run_call_ok ran with ⟨same, _, _, _, traffic⟩
  exact ⟨same, traffic ▸ Array.toList_push⟩

theorem run_entry_ok {entries : List α} {index : Nat} {a : α} :
    (entry entries index : Op σ α).run s rig = (.ok a, after, rig') ↔
      entries[index]? = some a ∧ s = after ∧ rig = rig' := by
  unfold entry
  cases entries[index]? <;> simp

theorem run_allow_ok {result : Except Misuse α} {a : α} :
    (allow result : Op σ α).run s rig = (.ok a, after, rig') ↔
      result = .ok a ∧ s = after ∧ rig = rig' := by
  unfold allow
  cases result <;> simp

theorem run_mapM_ok {f : α → Op σ β} {R : α → β → Prop}
    (each : ∀ {a b s after rig rig'}, (f a).run s rig = (.ok b, after, rig') →
      R a b ∧ s = after ∧ rig = rig')
    {xs : List α} {ys : List β} (ran : (xs.mapM f).run s rig = (.ok ys, after, rig')) :
    List.Forall₂ R xs ys ∧ s = after ∧ rig = rig' := by
  induction xs generalizing ys with
  | nil =>
    cases ran
    exact ⟨.nil, rfl, rfl⟩
  | cons x xs ih =>
    rw [List.mapM_cons] at ran
    obtain ⟨y, _, _, first, ran⟩ := run_bind_ok.mp ran
    obtain ⟨ys, _, _, rest, last⟩ := run_bind_ok.mp ran
    cases last
    rcases each first with ⟨related, rfl, rfl⟩
    rcases ih rest with ⟨others, rfl, rfl⟩
    exact ⟨.cons related others, rfl, rfl⟩

end Op

end RenderGraph
