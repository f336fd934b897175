import Mathlib.Data.Finset.Basic

/-!
# Shared vocabulary

Machine words and error numbers used by the block layer, the server and the
directory code. Every `u64` field of the source is a `Nat` below `2 ^ 64`, and
the wrap-around of `le64_add_cpu` is written out, so that the places where the
code can overflow show up in the statements about it.
-/

namespace Scoutfs

/-- `U64_MAX`. -/
def U64_MAX : Nat := 2 ^ 64 - 1

/-- `le64_add_cpu`: add to a little-endian 64-bit field, wrapping at `2 ^ 64`. -/
def le64AddCpu (x d : Nat) : Nat := (x + d) % 2 ^ 64

theorem le64AddCpu_of_le {x d : Nat} (h : x + d ≤ U64_MAX) : le64AddCpu x d = x + d :=
  Nat.mod_eq_of_lt (by unfold U64_MAX at h; omega)

/-- For `u64` operands, `le64_add_cpu` lands below where it started exactly when the sum
does not fit: the wrap test of `get_next_ino_batch`. -/
theorem add_le_of_not_le64AddCpu_lt {x d : Nat} (hx : x ≤ U64_MAX) (hd : d ≤ U64_MAX)
    (h : ¬le64AddCpu x d < x) : x + d ≤ U64_MAX := by
  unfold le64AddCpu U64_MAX at *
  omega

/-- `le64_add_cpu(&x, -1ULL)`: one less, wrapping below zero to `U64_MAX`. -/
theorem le64AddCpu_minus_one {x : Nat} (h : x ≤ U64_MAX) :
    le64AddCpu x U64_MAX = if x = 0 then U64_MAX else x - 1 := by
  unfold le64AddCpu U64_MAX at *
  split
  · subst x; rfl
  · rw [show x + (2 ^ 64 - 1) = (x - 1) + 2 ^ 64 by omega, Nat.add_mod_right]
    exact Nat.mod_eq_of_lt (by omega)

/-! ## Logs

Every state machine of the model keeps a log of what it did, oldest first, and
its ordering properties are stated by position in it. -/

section Log

variable {α : Type} {log : List α} {e : α}

theorem getElem?_append_singleton {i : Nat} :
    (log ++ [e])[i]? = if i < log.length then log[i]? else if i = log.length then some e else none := by
  split
  · exact List.getElem?_append_left ‹_›
  · rw [List.getElem?_append_right (by omega)]
    split
    · subst i; simp
    · cases h : i - log.length with
      | zero => omega
      | succ n => simp

/-- An entry of `log ++ [e]` is an entry of `log` or `e` itself, at the end. -/
theorem getElem?_append_singleton_eq_some {i : Nat} {e' : α} (h : (log ++ [e])[i]? = some e') :
    log[i]? = some e' ∨ i = log.length ∧ e' = e := by
  rw [getElem?_append_singleton] at h
  split at h
  · exact .inl h
  · split at h
    · exact .inr ⟨‹_›, (Option.some.inj h).symm⟩
    · cases h

theorem lt_length_of_getElem?_eq_some {i : Nat} {e' : α} (h : log[i]? = some e') : i < log.length :=
  (List.getElem?_eq_some_iff.mp h).1

end Log

/-! ## Error numbers

The kernel's errno values. Functions of the source return them negated. -/

def ENOENT : Int := 2
def EIO : Int := 5
def EAGAIN : Int := 11
def ENOMEM : Int := 12
def EEXIST : Int := 17
def EINVAL : Int := 22
def ENOSPC : Int := 28
def ENAMETOOLONG : Int := 36
def ENOTEMPTY : Int := 39

end Scoutfs
