import Glm5Next.Ragged

-- Views of a tensor that is kept row by row: `flat` lays it out, `view` reads
-- the flat elements with other sizes.
namespace TensorViews
variable {α : Type}

def flat2 (b : Nat) (t : Nat → Nat → α) (n : Nat) : α := t (n / b) (n % b)

def flat3 (b c : Nat) (t : Nat → Nat → Nat → α) (n : Nat) : α := t (n / c / b) (n / c % b) (n % c)

def view2 (b : Nat) (x : Nat → α) (i j : Nat) : α := x (i * b + j)

def view3 (b c : Nat) (x : Nat → α) (i j k : Nat) : α := x ((i * b + j) * c + k)

def trans021 (t : Nat → Nat → Nat → α) (i j k : Nat) : α := t i k j

-- Taking a last axis of two apart, and putting one on.
def split (t : Nat → Nat → Nat → α) : (Nat → Nat → α) × (Nat → Nat → α) :=
  (fun i j => t i j 0,fun i j => t i j 1)

def join (a b : Nat → Nat → α) (i j k : Nat) : α := if k = 0 then a i j else b i j

@[simp] theorem flat2_at (t : Nat → Nat → α) (i : Nat) (inside : j < b) : flat2 b t (i * b + j) = t i j := by
  unfold flat2
  rw [Ragged.grid_row inside,Ragged.grid_col inside]

@[simp] theorem flat3_at (t : Nat → Nat → Nat → α) (i : Nat) (inside : j < b) (inside' : k < c) :
    flat3 b c t ((i * b + j) * c + k) = t i j k := by
  unfold flat3
  rw [Ragged.grid_row inside',Ragged.grid_col inside',Ragged.grid_row inside,Ragged.grid_col inside]

theorem merged_last {g p : Nat} (t : Nat → Nat → Nat → α) (row : Nat) (inside : col < g * p) :
    view2 (g * p) (flat3 g p t) row col = t row (col / p) (col % p) := by
  have positive : 0 < p := Nat.pos_of_mul_pos_left (Nat.lt_of_le_of_lt (Nat.zero_le col) inside)
  have group : col / p < g := Nat.div_lt_of_lt_mul (by rwa [Nat.mul_comm] at inside)
  have place : row * (g * p) + col = (row * g + col / p) * p + col % p := by
    rw [Nat.add_mul,Nat.mul_assoc,Nat.add_assoc,Nat.div_add_mod']
  unfold view2
  rw [place,flat3_at t row group (Nat.mod_lt _ positive)]

theorem merged_first (t : Nat → Nat → Nat → α) (i : Nat) (inside : j < b) (inside' : k < c) :
    view2 c (flat3 b c t) (i * b + j) k = t i j k := flat3_at t i inside inside'

theorem split_first (t : Nat → Nat → α) (b i j : Nat) (inside : k < c) :
    view3 b c (flat2 c t) i j k = t (i * b + j) k := flat2_at t (i * b + j) inside

end TensorViews
