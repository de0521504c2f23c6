import Bracketing.Token

/-!
Cuts of a token list at its operator places, which are the odd ones: the token there and what stands
on either side of it, leftmost cut first. Which token it is makes no difference, and the right side
may be empty.
-/

namespace Bracketing

structure Cut where
  left : List Token
  middle : Token
  right : List Token

namespace Cut

def shift (t m : Token) (c : Cut) : Cut := { c with left := t :: m :: c.left }

def all : List Token → List Cut
  | t :: m :: ts => ⟨[t], m, ts⟩ :: (all ts).map (shift t m)
  | _ => []

theorem append_of_mem {c : Cut} {ts : List Token} (h : c ∈ all ts) :
    c.left ++ c.middle :: c.right = ts := by
  fun_induction all ts generalizing c with
  | case1 t m ts ih =>
    rcases List.mem_cons.1 h with rfl | h
    · rfl
    · obtain ⟨d, hd, rfl⟩ := List.mem_map.1 h
      simp [shift, ih hd]
  | case2 => simp at h

theorem length_of_mem {c : Cut} {ts : List Token} (h : c ∈ all ts) :
    c.left.length + 1 + c.right.length = ts.length := by
  rw [← append_of_mem h, List.length_append, List.length_cons]
  omega

theorem length_left_lt {c : Cut} {ts : List Token} (h : c ∈ all ts) :
    c.left.length < ts.length := by
  have hlen := length_of_mem h
  omega

theorem length_right_lt {c : Cut} {ts : List Token} (h : c ∈ all ts) :
    c.right.length < ts.length := by
  have hlen := length_of_mem h
  omega

theorem odd_length_left {c : Cut} {ts : List Token} (h : c ∈ all ts) :
    c.left.length % 2 = 1 := by
  fun_induction all ts generalizing c with
  | case1 t m ts ih =>
    rcases List.mem_cons.1 h with rfl | h
    · rfl
    · obtain ⟨d, hd, rfl⟩ := List.mem_map.1 h
      have := ih hd
      simp only [shift, List.length_cons]
      omega
  | case2 => simp at h

end Cut

end Bracketing
