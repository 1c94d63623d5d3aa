import Mathlib.Data.List.Basic

/-!
# Edfomai.Lib.Outbox

**Sending over a channel that may refuse.** A `Channel` has a place for a message or has
none, and takes a message or refuses it accordingly. An `Outbox` is the sender's end: the
channel, and the messages sent so far with what became of each.

Between two messages the others use the channel as well. `pace n` is what they make of it
before message number `n`; nothing is assumed of it.

`sendAll_log` is the account of a whole batch: its messages are in the log in their order,
and all of them were taken exactly if the channel had a place for each (`Takes`).
-/

universe u v

/-- A channel in the states `σ`. -/
structure Channel (σ : Type u) where
  /-- There is a place for a message. -/
  Free : σ → Prop
  /-- Write a message: whether it was taken, and the channel after it. -/
  write : σ → Bool × σ
  taken : ∀ s, Free s → (write s).1 = true
  /-- A message that is refused leaves the channel as it was. -/
  full : ∀ s, ¬Free s → (write s).1 = false ∧ (write s).2 = s

/-- The sender's end of a channel. The log is kept newest first. -/
structure Outbox (σ : Type u) (α : Type v) where
  channel : σ
  log : List (α × Bool)

namespace Outbox

variable {σ : Type u} {α : Type v} (c : Channel σ) (pace : Nat → σ → σ)

/-- Send a message. -/
def send (o : Outbox σ α) (a : α) : Outbox σ α :=
  let res := c.write (pace o.log.length o.channel)
  ⟨res.2, (a, res.1) :: o.log⟩

/-- Send a list of messages, the first one first. -/
def sendAll (as : List α) (o : Outbox σ α) : Outbox σ α := as.foldl (send c pace) o

/-- The channel has a place for each of `count` messages, the first of which is message
number `n`. -/
def Takes : (n count : Nat) → σ → Prop
  | _, 0, _ => True
  | n, count + 1, s => c.Free (pace n s) ∧ Takes (n + 1) count (c.write (pace n s)).2

theorem sendAll_append (as bs : List α) (o : Outbox σ α) :
    sendAll c pace (as ++ bs) o = sendAll c pace bs (sendAll c pace as o) :=
  List.foldl_append ..

/-- A message is taken exactly if there is a place for it. -/
theorem write_fst_iff {s : σ} : (c.write s).1 = true ↔ c.Free s := by
  by_cases h : c.Free s
  · exact iff_of_true (c.taken s h) h
  · exact iff_of_false (by simp [(c.full s h).1]) h

/-- **The account of a batch.** -/
theorem sendAll_log (as : List α) (o : Outbox σ α) :
    ∃ new, (sendAll c pace as o).log = new ++ o.log ∧ new.map Prod.fst = as.reverse ∧
      ((∀ e ∈ new, e.2 = true) ↔ Takes c pace o.log.length as.length o.channel) := by
  induction as generalizing o with
  | nil => exact ⟨[], rfl, rfl, iff_of_true (fun _ h => absurd h List.not_mem_nil) trivial⟩
  | cons a as ih =>
      obtain ⟨new, hlog, hmap, htaken⟩ := ih (send c pace o a)
      refine ⟨new ++ [(a, (c.write (pace o.log.length o.channel)).1)], ?_, ?_, ?_⟩
      · rw [sendAll, List.foldl_cons, ← sendAll, hlog, List.append_assoc]
        rfl
      · simp [hmap]
      · rw [List.length_cons, Takes, ← write_fst_iff, and_comm]
        simp only [List.mem_append, List.mem_singleton, or_imp, forall_and, forall_eq]
        exact and_congr_left' htaken

end Outbox
