/-
# `IshGo.Lib.InPlace` — appending to a slice while ranging over it

The Go idiom

    out := xs[:0]
    for _, x := range xs {
        out = append(out, f(x)...)
    }
    xs = out

reads and writes ONE array.  As long as `out` is never ahead of the walk this is a flat map; once an
element has emitted two, the walk reads back what it has just written.
-/
import Mathlib.Data.List.Basic

namespace IshGo.Lib

open List

variable {n : Nat}

universe u
variable {α : Type u}

/-- The slice being appended to: still the prefix `[:k]` of the array being
walked, or moved to an array of its own. -/
inductive Dest (α : Type u) where
  | shared (k : Nat)
  | moved (xs : List α)

/-- An in-place pass: the array being walked, up to its capacity, and the slice
being built. -/
structure Pass (α : Type u) where
  cells : List α
  out : Dest α

open Pass

/-- Go's `append(out, x)`: overwrite the next cell while there is one, copy the
slice out of the array otherwise. -/
def Pass.append (p : Pass α) (x : α) : Pass α :=
  match p.out with
  | .shared k =>
    if k < p.cells.length then ⟨p.cells.set k x, .shared (k + 1)⟩
    else ⟨p.cells, .moved (p.cells.take k ++ [x])⟩
  | .moved xs => ⟨p.cells, .moved (xs ++ [x])⟩

/-- `append(out, ys...)`, one element at a time. -/
def Pass.appendAll (p : Pass α) (ys : List α) : Pass α := ys.foldl Pass.append p

/-- The loop body for cells `i`, `i+1`, … of the array, `todo` of them.  The
cell is read when its turn comes, not when the loop starts. -/
def Pass.range (f : α → List α) : (todo i : Nat) → Pass α → Pass α
  | 0, _, p => p
  | todo + 1, i, p =>
    match p.cells[i]? with
    | none => p
    | some x => range f todo (i + 1) (p.appendAll (f x))

def Pass.result (p : Pass α) : List α :=
  match p.out with
  | .shared k => p.cells.take k
  | .moved xs => xs

/-- The whole idiom, for a slice `xs` whose array has the cells `spare` beyond
the slice's length. -/
def inPlace (f : α → List α) (xs spare : List α) : List α :=
  ((Pass.range f xs.length 0 ⟨xs ++ spare, .shared 0⟩)).result

/-! ## What `append` does to the two halves of a pass -/

@[simp] theorem Pass.appendAll_nil (p : Pass α) : p.appendAll [] = p := rfl

@[simp] theorem Pass.appendAll_cons (p : Pass α) (y : α) (ys : List α) :
    p.appendAll (y :: ys) = (p.append y).appendAll ys := rfl

theorem Pass.append_moved (cells xs : List α) (y : α) :
    Pass.append ⟨cells, .moved xs⟩ y = ⟨cells, .moved (xs ++ [y])⟩ := rfl

theorem Pass.appendAll_moved (cells : List α) :
    ∀ (ys xs : List α), appendAll ⟨cells, .moved xs⟩ ys = ⟨cells, .moved (xs ++ ys)⟩
  | [], xs => by simp
  | y :: ys, xs => by
      rw [appendAll_cons, append_moved, appendAll_moved cells ys]
      simp

/-- An `append` that still has a cell: the cells split as `done ++ old :: rest`
and the old cell gives way. -/
theorem Pass.append_shared (done rest : List α) (old y : α) :
    Pass.append ⟨done ++ old :: rest, .shared done.length⟩ y =
      ⟨(done ++ [y]) ++ rest, .shared (done ++ [y]).length⟩ := by
  simp [Pass.append]

theorem Pass.append_full (done : List α) (y : α) :
    Pass.append ⟨done, .shared done.length⟩ y = ⟨done, .moved (done ++ [y])⟩ := by
  simp [Pass.append]

/-- Appending no more elements than there are stale cells replaces exactly
those cells. -/
theorem Pass.appendAll_shared :
    ∀ (ys done stale rest : List α), ys.length = stale.length →
      appendAll ⟨done ++ (stale ++ rest), .shared done.length⟩ ys =
        ⟨(done ++ ys) ++ rest, .shared (done ++ ys).length⟩
  | [], done, [], rest, _ => by simp
  | y :: ys, done, old :: stale, rest, h => by
      have hlen : ys.length = stale.length := by simpa using h
      rw [appendAll_cons, cons_append, append_shared, appendAll_shared ys (done ++ [y]) stale rest hlen]
      simp

theorem Pass.result_appendAll (done : List α) :
    ∀ (ys rest : List α),
      (appendAll ⟨done ++ rest, .shared done.length⟩ ys).result = done ++ ys := by
  intro ys
  induction ys generalizing done with
  | nil => intro rest; simp [Pass.result]
  | cons y ys ih =>
    intro rest
    cases rest with
    | nil =>
      rw [appendAll_cons, append_nil, append_full, appendAll_moved]
      simp [Pass.result]
    | cons old rest =>
      rw [appendAll_cons, append_shared, ih (done ++ [y]) rest]
      simp

theorem Pass.range_succ (f : α → List α) (todo i : Nat) (p : Pass α) (x : α)
    (hx : p.cells[i]? = some x) :
    Pass.range f (todo + 1) i p = Pass.range f todo (i + 1) (p.appendAll (f x)) := by
  simp [Pass.range, hx]

/-! ## The capacity makes no difference

`Pass.Views n p front res`: seen from the first `n` cells, the pass is the pair of
these cells and of the slice built so far.  `append` and the loop act on that
pair alone. -/

structure Pass.Views (n : Nat) (p : Pass α) (front res : List α) : Prop where
  front_eq : p.cells.take n = front
  long : n ≤ p.cells.length
  result_eq : p.result = res
  inside : ∀ k, p.out = .shared k → k ≤ p.cells.length
  beyond : ∀ xs, p.out = .moved xs → n ≤ xs.length

/-- `append` on the first `n` cells. -/
def frontAppend (n : Nat) (front res : List α) (x : α) : List α :=
  if res.length < n then front.set res.length x else front

theorem Pass.Views.append {p : Pass α} {front res : List α}
    (h : p.Views n front res) (x : α) : (p.append x).Views n (frontAppend n front res x) (res ++ [x]) := by
  obtain ⟨cells, out⟩ := p
  obtain ⟨rfl, hlong, rfl, hin, hbeyond⟩ := h
  dsimp only at hlong hin hbeyond
  cases out with
  | moved xs =>
    have hlen : ¬ xs.length < n := Nat.not_lt.mpr (hbeyond xs rfl)
    refine ⟨?_, hlong, rfl, fun k hk => (nomatch hk), fun ys hys => ?_⟩
    · simp [frontAppend, Pass.result, Pass.append, hlen]
    · cases hys
      rw [length_append]
      omega
  | shared k =>
    have hk : k ≤ cells.length := hin k rfl
    have hlen : (cells.take k).length = k := by simp [hk]
    by_cases hroom : k < cells.length
    · have hap : Pass.append ⟨cells, .shared k⟩ x = ⟨cells.set k x, .shared (k + 1)⟩ :=
        if_pos hroom
      rw [hap]
      refine ⟨?_, by simpa using hlong, ?_, fun j hj => ?_, fun ys hys => nomatch hys⟩
      · simp only [frontAppend, Pass.result, hlen, take_set]
        split
        · rfl
        · exact set_eq_of_length_le (by rw [length_take]; omega)
      · show (cells.set k x).take (k + 1) = cells.take k ++ [x]
        rw [take_add_one, take_set, set_eq_of_length_le (by simp [hk])]
        simp [hroom]
      · cases hj
        rw [length_set]
        exact hroom
    · have hap : Pass.append ⟨cells, .shared k⟩ x = ⟨cells, .moved (cells.take k ++ [x])⟩ :=
        if_neg hroom
      rw [hap]
      have hkn : ¬ k < n := by omega
      refine ⟨?_, hlong, rfl, fun j hj => (nomatch hj), fun ys hys => ?_⟩
      · simp [frontAppend, Pass.result, hlen, hkn]
      · cases hys
        rw [length_append, hlen]
        omega

/-- `append(out, ys...)` on the first `n` cells. -/
def frontAppendAll (n : Nat) : (front res ys : List α) → List α
  | front, _, [] => front
  | front, res, y :: ys => frontAppendAll n (frontAppend n front res y) (res ++ [y]) ys

theorem Pass.Views.appendAll :
    ∀ (ys : List α) {p : Pass α} {front res : List α}, p.Views n front res →
      (p.appendAll ys).Views n (frontAppendAll n front res ys) (res ++ ys)
  | [], _, _, res, h => by
      rw [append_nil]
      exact h
  | y :: ys, _, _, res, h => by
      have := (h.append y).appendAll ys
      rw [append_assoc] at this
      exact this

/-- The loop on the first `n` cells. -/
def frontRange (f : α → List α) (n : Nat) : (todo i : Nat) → (front res : List α) → List α
  | 0, _, _, res => res
  | todo + 1, i, front, res =>
    match front[i]? with
    | none => res
    | some x => frontRange f n todo (i + 1) (frontAppendAll n front res (f x)) (res ++ f x)

theorem Pass.Views.range (f : α → List α) :
    ∀ (todo i : Nat) {p : Pass α} {front res : List α}, p.Views n front res → i + todo ≤ n →
      (Pass.range f todo i p).result = frontRange f n todo i front res
  | 0, _, _, _, _, h, _ => h.result_eq
  | todo + 1, i, p, front, res, h, hi => by
      have hread : front[i]? = p.cells[i]? := by
        rw [← h.front_eq, getElem?_take, if_pos (by omega)]
      unfold Pass.range frontRange
      rw [hread]
      cases p.cells[i]? with
      | none => exact h.result_eq
      | some x => exact (h.appendAll (f x)).range f todo (i + 1) (by omega)

theorem inPlace_eq_frontRange (f : α → List α) (xs spare : List α) :
    inPlace f xs spare = frontRange f xs.length xs.length 0 xs [] := by
  have hviews : Pass.Views xs.length ⟨xs ++ spare, .shared 0⟩ xs [] :=
    ⟨take_left, by simp, rfl, fun k hk => by cases hk; simp, fun ys hys => nomatch hys⟩
  exact hviews.range f xs.length 0 (by omega)

/-- What lies past the slice is never seen. -/
theorem inPlace_spare (f : α → List α) (xs spare : List α) : inPlace f xs spare = inPlace f xs [] := by
  rw [inPlace_eq_frontRange, inPlace_eq_frontRange]

/-! ## What holds of every element -/

theorem mem_frontAppendAll {y : α} :
    ∀ (ys : List α) {front res : List α}, y ∈ frontAppendAll n front res ys → y ∈ front ∨ y ∈ ys
  | [], _, _, h => .inl h
  | z :: ys, _, _, h => by
      rcases mem_frontAppendAll ys h with h | h
      · unfold frontAppend at h
        split at h
        · exact (mem_or_eq_of_mem_set h).imp_right fun (heq : y = z) => heq ▸ mem_cons_self
        · exact .inl h
      · exact .inr (mem_cons_of_mem z h)

theorem frontRange_every {P : α → Prop} {f : α → List α} (hf : ∀ x, P x → ∀ y ∈ f x, P y) :
    ∀ (todo i : Nat) {front res : List α}, (∀ x ∈ front, P x) → (∀ x ∈ res, P x) →
      ∀ y ∈ frontRange f n todo i front res, P y
  | 0, _, _, _, _, hres => hres
  | todo + 1, i, front, res, hfront, hres => by
      unfold frontRange
      split
      · exact hres
      · rename_i x hx
        have hnew := hf x (hfront x (mem_of_getElem? hx))
        exact frontRange_every hf todo (i + 1) (fun y hy => (mem_frontAppendAll _ hy).elim (hfront y) (hnew y))
          (forall_mem_append.mpr ⟨hres, hnew⟩)

theorem inPlace_every {P : α → Prop} {f : α → List α} (hf : ∀ x, P x → ∀ y ∈ f x, P y) {xs : List α}
    (hxs : ∀ x ∈ xs, P x) : ∀ y ∈ inPlace f xs [], P y := by
  rw [inPlace_eq_frontRange]
  exact frontRange_every hf _ _ hxs fun x hx => absurd hx not_mem_nil

/-! ## The pass that keeps up

The array reads, left to right: what has been emitted, cells already walked and
not yet overwritten (`stale`), cells still to walk, cells past the slice.  An
element that emits at most one piece fits into `stale` plus its own cell. -/

theorem Pass.range_flatMap (f : α → List α) (spare : List α) :
    ∀ (todo done stale : List α), (∀ x ∈ todo.dropLast, (f x).length ≤ 1) →
      (Pass.range f todo.length (done ++ stale).length
        ⟨done ++ (stale ++ (todo ++ spare)), .shared done.length⟩).result =
        done ++ todo.flatMap f
  | [], done, stale, _ => by simp [Pass.range, Pass.result]
  | [x], done, stale, _ => by
      have hx : (done ++ (stale ++ ([x] ++ spare)))[(done ++ stale).length]? = some x := by
        simp [← append_assoc]
      show (Pass.range f (0 + 1) _ _).result = _
      rw [range_succ f 0 _ _ x hx]
      simp only [Pass.range, result_appendAll, flatMap_cons, flatMap_nil, append_nil]
  | x :: y :: todo, done, stale, h => by
      have hx : (done ++ (stale ++ (x :: y :: todo ++ spare)))[(done ++ stale).length]? =
          some x := by
        simp [← append_assoc]
      have hfx : (f x).length ≤ 1 := h x (by simp)
      -- the pieces of `x` overwrite `gone`, a prefix of the stale cells and of `x` itself
      obtain ⟨gone, kept, hsplit, hgone⟩ :
          ∃ gone kept, stale ++ [x] = gone ++ kept ∧ (f x).length = gone.length := by
        refine ⟨(stale ++ [x]).take (f x).length, (stale ++ [x]).drop (f x).length,
          (take_append_drop _ _).symm, ?_⟩
        rw [length_take, length_append, length_singleton]
        omega
      have hcells : done ++ (stale ++ (x :: y :: todo ++ spare)) =
          done ++ (gone ++ (kept ++ (y :: todo ++ spare))) := by
        rw [← append_assoc gone, ← hsplit]
        simp
      have hlen : (done ++ stale).length + 1 = ((done ++ f x) ++ kept).length := by
        have := congrArg length hsplit
        simp only [length_append, length_singleton] at this ⊢
        omega
      rw [length_cons, range_succ f _ _ _ x hx]
      show (Pass.range f _ _ (appendAll ⟨done ++ (stale ++ (x :: y :: todo ++ spare)),
        .shared done.length⟩ (f x))).result = _
      rw [hcells, appendAll_shared _ _ _ _ hgone, hlen,
        range_flatMap f spare (y :: todo) (done ++ f x) kept
          (fun z hz => h z (by simp [dropLast] at hz ⊢; exact Or.inr hz))]
      simp

theorem inPlace_eq_flatMap (f : α → List α) (xs spare : List α)
    (h : ∀ x ∈ xs.dropLast, (f x).length ≤ 1) : inPlace f xs spare = xs.flatMap f := by
  have := range_flatMap f spare xs [] [] h
  simpa [inPlace] using this

/-! ## The pass that is overtaken

Up to the element that emits two pieces nothing moves.  From there on the walk
reads the piece written last, writes it one cell further, and reads it again. -/

theorem Pass.range_fixed (f : α → List α) (t : Nat) (rest : List α) :
    ∀ (pre done : List α), (∀ y ∈ pre, f y = [y]) →
      Pass.range f (pre.length + t) done.length ⟨done ++ (pre ++ rest), .shared done.length⟩ =
        Pass.range f t (done ++ pre).length ⟨(done ++ pre) ++ rest, .shared (done ++ pre).length⟩
  | [], done, _ => by simp
  | y :: pre, done, h => by
      have hy : (done ++ (y :: pre ++ rest))[done.length]? = some y := by simp
      have hlen : (y :: pre).length + t = (pre.length + t) + 1 := by simp; omega
      rw [hlen, range_succ f _ _ _ y hy, h y (by simp)]
      show Pass.range f _ _ (Pass.append ⟨done ++ y :: (pre ++ rest), .shared done.length⟩ y) = _
      have ih := range_fixed f t rest pre (done ++ [y]) (fun z hz => h z (by simp [hz]))
      rw [append_shared]
      simpa using ih

theorem Pass.range_echo (f : α → List α) (b : α) (hb : f b = [b]) :
    ∀ (todo : Nat) (done rest : List α), todo ≤ rest.length + 1 →
      (Pass.range f todo done.length
        ⟨(done ++ [b]) ++ rest, .shared (done ++ [b]).length⟩).result =
        (done ++ [b]) ++ replicate todo b
  | 0, done, rest, _ => by
      show ((done ++ [b]) ++ rest).take (done ++ [b]).length = _
      rw [take_left, replicate_zero, append_nil]
  | todo + 1, done, rest, h => by
      have hread : ((done ++ [b]) ++ rest)[done.length]? = some b := by simp
      rw [range_succ f _ _ _ b hread, hb, appendAll_cons, appendAll_nil]
      cases rest with
      | nil =>
        obtain rfl : todo = 0 := by simpa using h
        rw [append_nil, append_full]
        simp [Pass.range, Pass.result]
      | cons old rest =>
        have ih := range_echo f b hb todo (done ++ [b]) rest (by simpa using h)
        rw [append_shared]
        have hlen : done.length + 1 = (done ++ [b]).length := by simp
        rw [hlen, ih, replicate_succ]
        simp

/-- An element that emits two pieces overtakes the walk: its second piece takes
the place of everything that followed, once more for the cell it pushed out. -/
theorem inPlace_overtaken (f : α → List α) (pre post spare : List α) (x a b : α)
    (hpre : ∀ y ∈ pre, f y = [y]) (hx : f x = [a, b]) (hb : f b = [b]) :
    inPlace f (pre ++ x :: post) spare = pre ++ a :: b :: replicate post.length b := by
  have hstart := range_fixed f (post.length + 1) (x :: (post ++ spare)) pre [] hpre
  have hlen : (pre ++ x :: post).length = pre.length + (post.length + 1) := by simp
  have hcells : (pre ++ x :: post) ++ spare = [] ++ (pre ++ x :: (post ++ spare)) := by simp
  rw [inPlace, hlen, hcells]
  show (Pass.range f (pre.length + (post.length + 1)) ([] : List α).length _).result = _
  rw [show (Dest.shared 0 : Dest α) = .shared ([] : List α).length from rfl, hstart]
  simp only [nil_append]
  have hread : (pre ++ x :: (post ++ spare))[pre.length]? = some x := by simp
  rw [range_succ f _ _ _ x hread, hx, appendAll_cons, append_shared, appendAll_cons, appendAll_nil]
  cases hrest : post ++ spare with
  | nil =>
    obtain ⟨rfl, rfl⟩ : post = [] ∧ spare = [] := by simpa using hrest
    rw [append_nil, append_full]
    simp [Pass.range, Pass.result]
  | cons old rest =>
    have htodo : post.length ≤ rest.length + 1 := by
      have := congrArg length hrest
      simp only [length_append, length_cons] at this
      omega
    have hecho := range_echo f b hb post.length (pre ++ [a]) rest htodo
    rw [append_shared, show pre.length + 1 = (pre ++ [a]).length by simp, hecho]
    simp

end IshGo.Lib
