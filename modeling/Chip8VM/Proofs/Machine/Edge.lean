import Mathlib.Data.Set.Function
import Chip8VM.Proofs.Instruction.Drawing
import Chip8VM.Proofs.Machine.Inbox
import Chip8VM.Proofs.Machine.Moments

/-!
# The right edge

The two ways to wrap place a pixel differently only if it lies past the right edge: one of them goes
on a row further down for each width of the screen that the column is past
(`Wrap.flat_eq_toroidal`). A sprite is eight pixels wide, so a draw from column 56 or left of it
does the same in both ways (`Instruction.execute_wrap`), and a history in which no other draw is
executed goes the same on two machines that differ in their way to wrap alone
(`Operation.run_withWrap`).
-/

set_option autoImplicit false

namespace Chip8VM

/-! ## Cells -/

namespace Wrap

theorem flat_eq_toroidal (x y : Nat) : flat.index x y = toroidal.index x (y + x / 64) := by
  simp only [index]
  omega

theorem flat_eq_toroidal_iff (x y : Nat) :
    flat.index x y = toroidal.index x y ↔ 32 ∣ x / 64 := by
  simp only [index]
  omega

theorem index_eq_of_lt (wrap wrap' : Wrap) {x : Nat} (hx : x < 64) (y : Nat) :
    wrap.index x y = wrap'.index x y := by
  have heq : flat.index x y = toroidal.index x y := by
    rw [flat_eq_toroidal_iff, Nat.div_eq_of_lt hx]
    exact Nat.dvd_zero 32
  cases wrap <;> cases wrap'
  · rfl
  · exact heq
  · exact heq.symm
  · rfl

theorem index_on_screen (wrap : Wrap) {x y : Nat} (hx : x < 64) (hy : y < 32) :
    wrap.index x y = x + 64 * y := by
  rw [index_eq_of_lt wrap .toroidal hx, index]
  omega

/-- The places on the screen are the cells, each of them once. -/
theorem bijOn_index (wrap : Wrap) :
    Set.BijOn (fun place : Nat × Nat => wrap.index place.1 place.2)
      {place | place.1 < 64 ∧ place.2 < 32} {c | c < 2048} := by
  refine ⟨?_, ?_, ?_⟩
  · rintro ⟨x, y⟩ -
    exact wrap.index_lt x y
  · rintro ⟨x, y⟩ ⟨hx, hy⟩ ⟨x', y'⟩ ⟨hx', hy'⟩ heq
    simp only [index_on_screen wrap hx hy, index_on_screen wrap hx' hy'] at heq hx hx'
    rw [Prod.mk.injEq]
    omega
  · intro c hc
    have hc : c < 2048 := hc
    have hx : c % 64 < 64 := Nat.mod_lt c (by decide)
    have hy : c / 64 < 32 := by omega
    exact ⟨(c % 64, c / 64), ⟨hx, hy⟩, (index_on_screen wrap hx hy).trans (Nat.mod_add_div c 64)⟩

end Wrap

theorem Sprite.cells_wrap (wrap wrap' : Wrap) {x : Nat} (hx : x ≤ 56) (y : Nat)
    (rows : List UInt8) : cells wrap' x y rows = cells wrap x y rows := by
  refine List.map_congr_left ?_
  rintro ⟨col, row⟩ hp
  obtain ⟨-, hcol, -⟩ := mem_pixels.1 hp
  exact Fin.ext (Wrap.index_eq_of_lt wrap' wrap (by omega) _)

/-! ## Instructions -/

namespace Instruction

/-- If an instruction is a draw, then its sprite ends at the right edge at the latest. -/
def StaysInRow (s : State) (i : Instruction) : Prop :=
  ∀ x y rows, i = .draw x y rows → (s.v.get x).toNat ≤ 56

variable (wrap wrap' : Wrap) (byte : UInt8) {s : State} {i : Instruction}

theorem effect_wrap (h : i.StaysInRow s) : i.effect wrap' byte s = i.effect wrap byte s := by
  cases i with
  | draw x y rows =>
    simp only [effect, drawn]
    rw [Sprite.cells_wrap wrap wrap' (h x y rows rfl)]
  | _ => rfl

theorem execute_wrap (h : i.StaysInRow s) : i.execute wrap' byte s = i.execute wrap byte s := by
  rw [execute_eq, execute_eq, effect_wrap wrap wrap' byte h]

end Instruction

/-! ## Machines -/

/-- The machine with another way to wrap. -/
def Machine.withWrap (m : Machine) (wrap : Wrap) : Machine := { m with wrap }

@[simp] theorem Machine.state_withWrap (m : Machine) (wrap : Wrap) :
    (m.withWrap wrap).state = m.state := rfl

/-- The second machine is the first one with the given way to wrap. -/
def Machine.SameButWrap (wrap : Wrap) (m m' : Machine) : Prop := m' = m.withWrap wrap

/-- If an instruction was executed in the moment that is a draw, then its sprite ended at the right
edge at the latest. -/
def Moment.StaysInRow (t : Moment) : Prop :=
  ∀ c ∈ t.reply.cycles, c.word.nibble 3 = 0xD → (t.machine.state.v.get c.word.x).toNat ≤ 56

instance (t : Moment) : Decidable t.StaysInRow :=
  inferInstanceAs (Decidable (∀ c ∈ t.reply.cycles, _))

variable {m : Machine} {u : Supply} (wrap : Wrap)

/-- **A step goes alike** in both ways to wrap. -/
theorem Machine.step_withWrap (h : (Operation.step.moment m u).StaysInRow) :
    After.Alike Eq (SameButWrap wrap) (m.step u) ((m.withWrap wrap).step u) := by
  refine step_alike rfl rfl rfl rfl (fun _ => rfl) (fun _ => rfl) fun i hat hstep => ?_
  have hrow : i.StaysInRow m.state := by
    rintro x y rows rfl
    have hreply : (Operation.step.moment m u).reply =
        .stepped (.executed ⟨(Instruction.draw x y rows).encode, m.state.pc⟩) := by
      show Reply.stepped (m.step u).reply = _
      rw [hstep]
      rfl
    have hcorner := h ⟨_, m.state.pc⟩ (by rw [hreply]; exact List.mem_singleton_self _)
      (Word.nibble_three_ofNibbles 0xD x y rows)
    have hx : (Instruction.draw x y rows).encode.x = x := Word.x_ofNibbles 0xD x y rows
    rw [← hx]
    exact hcorner
  simp only [SameButWrap, executed, commit, Instruction.result, withWrap,
    Instruction.effect_wrap m.wrap wrap u.peek hrow]

namespace Operation

/-- **An operation goes alike** in both ways to wrap. -/
theorem apply_withWrap {op : Operation} (h : (op.moment m u).StaysInRow) :
    After.Alike Eq (Machine.SameButWrap wrap) (op.apply m u) (op.apply (m.withWrap wrap) u) := by
  have hsame : ∀ n : Machine, Machine.SameButWrap wrap n (n.withWrap wrap) := fun _ => rfl
  cases op with
  | step =>
    have hstep := Machine.step_withWrap wrap h
    exact ⟨congrArg Reply.stepped hstep.reply, hstep.machine, hstep.supply⟩
  | load image =>
    exact settle_alike (fun _ => rfl) (hsame m) u (Machine.load_alike image (hsame _))
  | loadFrom source =>
    exact settle_alike (fun _ => rfl) (hsame m) u
      (Machine.loadFrom_alike source fun _ => hsame _)
  | press key =>
    exact settle_alike (fun _ => rfl) (hsame m) u (Machine.setKey_alike key true fun _ => hsame _)
  | release key =>
    exact settle_alike (fun _ => rfl) (hsame m) u
      (Machine.setKey_alike key false fun _ => hsame _)
  | tick =>
    have hp : (m.withWrap wrap).paused = m.paused := rfl
    simp only [apply, Machine.tick, hp]
    cases m.paused <;> exact ⟨rfl, rfl, rfl⟩
  | takeFrame =>
    have hd : (m.withWrap wrap).state.drawn = m.state.drawn := rfl
    simp only [apply, Machine.takeFrame, hd]
    cases m.state.drawn <;> exact ⟨rfl, rfl, rfl⟩
  | _ => exact ⟨rfl, rfl, rfl⟩

/-- **A history goes the same** in both ways to wrap, if every draw that it executes stays in its
row. -/
theorem run_withWrap {ops : List Operation} (h : ∀ t ∈ moments m u ops, t.StaysInRow) :
    run (m.withWrap wrap) u ops =
      ⟨(run m u ops).reply, (run m u ops).machine.withWrap wrap, (run m u ops).supply⟩ := by
  induction ops generalizing m u with
  | nil => rfl
  | cons op ops ih =>
    have hop := apply_withWrap wrap (h _ List.mem_cons_self)
    have hrest := ih fun t ht => h t (List.mem_cons_of_mem _ ht)
    have hmachine : (op.apply (m.withWrap wrap) u).machine =
        (op.apply m u).machine.withWrap wrap := hop.machine
    simp only [run, hmachine, hop.supply, hrest, hop.reply]

end Operation

/-- **Only the right edge tells the ways to wrap apart.** Both place every pixel on one of the 2048
cells, for any column and row. Past the right edge the flat way goes on one row down for each 64
columns, so the two agree exactly if their number is a multiple of 32, and always on the screen,
where they number the places row by row. A draw from column 56 or left of it does the same in both
ways, be it an error or a new state; and a history in which every draw that is executed is such a
draw goes the same on two machines that differ in their way to wrap alone: after any part of it they
have given the same replies, have taken the same random bytes, and still differ in nothing else. -/
theorem wraps_differ_past_edge :
    (∀ (wrap : Wrap) (x y : Nat), wrap.index x y < 2048) ∧
    (∀ x y : Nat, Wrap.flat.index x y = Wrap.toroidal.index x (y + x / 64) ∧
      (Wrap.flat.index x y = Wrap.toroidal.index x y ↔ 32 ∣ x / 64) ∧
      (x < 64 → Wrap.flat.index x y = Wrap.toroidal.index x y)) ∧
    (∀ wrap : Wrap, (∀ x y, x < 64 → y < 32 → wrap.index x y = x + 64 * y) ∧
      Set.BijOn (fun place : Nat × Nat => wrap.index place.1 place.2)
        {place | place.1 < 64 ∧ place.2 < 32} {c | c < 2048}) ∧
    (∀ (s : State) (x y : Register) (rows : Fin 16) (byte : UInt8), (s.v.get x).toNat ≤ 56 →
      (Instruction.draw x y rows).execute .flat byte s =
        (Instruction.draw x y rows).execute .toroidal byte s) ∧
    ∀ (m : Machine) (u : Supply) (ops : List Operation),
      (∀ t ∈ Operation.moments m u ops, t.StaysInRow) →
      ∀ (wrap : Wrap) (pre : List Operation), pre <+: ops →
        Operation.run (m.withWrap wrap) u pre = ⟨(Operation.run m u pre).reply,
          (Operation.run m u pre).machine.withWrap wrap, (Operation.run m u pre).supply⟩ := by
  refine ⟨Wrap.index_lt, fun x y => ⟨Wrap.flat_eq_toroidal x y, Wrap.flat_eq_toroidal_iff x y,
    fun hx => Wrap.index_eq_of_lt .flat .toroidal hx y⟩, fun wrap => ⟨fun x y hx hy =>
    wrap.index_on_screen hx hy, wrap.bijOn_index⟩, ?_, ?_⟩
  · intro s x y rows byte hx
    refine Instruction.execute_wrap .toroidal .flat byte ?_
    rintro x' y' rows' heq
    cases heq
    exact hx
  · rintro m u ops hops wrap pre ⟨rest, rfl⟩
    refine Operation.run_withWrap wrap fun t ht => hops t ?_
    rw [Operation.moments_append]
    exact List.mem_append_left _ ht

/-- Column 64 is the first that the two ways place differently. -/
example : Wrap.flat.index 64 0 = 64 ∧ Wrap.toroidal.index 64 0 = 0 := by decide

/-- The glyph of `0` is drawn in column 56 across the last row, and the pixel in its corner is
lit on both machines. -/
theorem wraps_agree_from_column_56 :
    let ops : List Operation :=
      [.load [0x60, 0x38, 0x61, 0x1E, 0xD0, 0x15], .step, .step, .step]
    let m := (Operation.run (.new .flat) (.ofSeed 1) ops).machine
    let m' := (Operation.run (.new .toroidal) (.ofSeed 1) ops).machine
    (∀ t ∈ Operation.moments (.new .flat) (.ofSeed 1) ops, t.StaysInRow) ∧
      m' = m.withWrap .toroidal ∧ m'.state.frame.isLit 1976 = true := by
  intro ops m m'
  have hrow : ∀ t ∈ Operation.moments (.new .flat) (.ofSeed 1) ops, t.StaysInRow := by
    decide +kernel
  have hlit : m.state.frame.isLit 1976 = true := by decide +kernel
  obtain ⟨-, -, -, -, hrun⟩ := wraps_differ_past_edge
  have hsame := hrun (.new .flat) (.ofSeed 1) ops hrow .toroidal ops List.prefix_rfl
  have hnew : (Machine.new .flat).withWrap .toroidal = .new .toroidal := rfl
  rw [hnew] at hsame
  have hm : m' = m.withWrap .toroidal := by
    show (Operation.run (.new .toroidal) (.ofSeed 1) ops).machine = _
    rw [hsame]
  refine ⟨hrow, hm, ?_⟩
  rw [hm, Machine.state_withWrap]
  exact hlit

end Chip8VM
