import Dsm.Paging.Transparency

/-!
# Tearing a context down

`dsm_destroy_context` (`Context.close` in Python) gives the memory of a context back to the system.
It sends nothing, so what the server has afterwards is what the evictions have put there. That is all
the program wrote if and only if no resident page is dirty with a content the server does not have
(`teardown_keeps_writes_iff`); one write and nothing else is already lost (`write_lost_at_teardown`).
-/

namespace Dsm.Paging

open DsmContext Dsm.Lib

variable {s : Pager} {mem : Nat → Page} {n : Nat}

/-- `dsm_destroy_context`: `munmap` and `free`. What is left is the server. -/
def dsmDestroyContext (s : Pager) : Remote := s.remote

/-- Every resident page that is dirty has in its frame what the server has of it already. -/
def Pager.Flushed (s : Pager) : Prop :=
  ∀ p f, s.ctx.Maps p f → (s.ctx.pageTable p).dirty ≠ 0 →
    s.remote.store p = s.ctx.localMemory f

/-- A page that is not cached, or is cached and clean, is on the server already. -/
theorem Represents.store_eq_iff (h : Represents mem n s) :
    s.remote.store = mem ↔ s.Flushed := by
  constructor
  · intro heq p f hm _
    rw [heq, h.coherent.cached p f hm]
  · intro hflushed
    funext p
    by_cases hp : p < n
    · have hp' : p < s.ctx.numVirtualPages := h.size.symm ▸ hp
      cases hv : (s.ctx.pageTable p).valid with
      | false => exact h.coherent.absent p hp' hv
      | true =>
          have hm : s.ctx.Maps p (s.ctx.pageTable p).frameNumber := ⟨hp', hv, rfl⟩
          by_cases hd : (s.ctx.pageTable p).dirty = 0
          · exact h.coherent.clean p _ hm hd
          · exact (hflushed p _ hm hd).trans (h.coherent.cached p _ hm)
    · exact h.outside p (Nat.le_of_not_lt hp)

/-- **When writes survive teardown.** A context is created and connected, a program makes any
sequence of accesses and prefetches, and the context is destroyed. The server has the flat memory
with all writes if and only if the context was flushed; and then whatever a new context reads is that
memory. -/
theorem teardown_keeps_writes_iff {numPages numVirtualPages : Nat} (hpos : 1 ≤ numPages)
    (hnp : numPages < 2 ^ 32) (hnv : numVirtualPages < 2 ^ 32) {fd : Int} (hfd : 0 ≤ fd)
    (content : Nat → Page) (calls : List Call) (hcalls : ∀ c ∈ calls, c.Plain numVirtualPages) :
    ∃ seen s, Pager.run ⟨dsmContextSetSocket (dsmCreateContext numPages numVirtualPages) fd,
        ⟨content, []⟩⟩ calls = some (seen, s) ∧ seen.length = calls.length ∧
      ((dsmDestroyContext s).store = flatAfter content (calls.zip seen) ↔ s.Flushed) ∧
      (s.Flushed → ∀ (numPages' numVirtualPages' : Nat) (fd' : Int) (again : List Call),
        1 ≤ numPages' → numPages' < 2 ^ 32 → numVirtualPages' < 2 ^ 32 → 0 ≤ fd' →
        (∀ c ∈ again, c.Plain numVirtualPages') →
        ∃ seen' s', Pager.run ⟨dsmContextSetSocket (dsmCreateContext numPages' numVirtualPages') fd',
            dsmDestroyContext s⟩ again = some (seen', s') ∧
          FlatRun (flatAfter content (calls.zip seen)) (again.zip seen')) := by
  obtain ⟨seen, s, heq, hlen, -, h⟩ :=
    (Represents.connect hpos hnp hnv hfd ⟨content, []⟩).run calls hcalls
  refine ⟨seen, s, heq, hlen, h.store_eq_iff, ?_⟩
  intro hflushed numPages' numVirtualPages' fd' again hpos' hnp' hnv' hfd' hagain
  obtain ⟨seen', s', heq', -, hflat, -⟩ :=
    (Represents.connect hpos' hnp' hnv' hfd' (dsmDestroyContext s)).run again hagain
  have hstore : (dsmDestroyContext s).store = flatAfter content (calls.zip seen) :=
    h.store_eq_iff.mpr hflushed
  rw [hstore] at hflat
  exact ⟨seen', s', heq', hflat⟩

/-- Page `0` is written and then evicted by a read of page `1`. -/
def writeThenRead : List Call :=
  [.access 0 1 (fun _ => Page.fill 7) ⟨.ok, .ok, true⟩, .access 1 0 id ⟨.ok, .ok, true⟩]

theorem teardown_keeps_writes_evicted : ∃ seen s,
    Pager.run ⟨dsmContextSetSocket (dsmCreateContext 1 2) 3, ⟨fun _ => zeroPage, []⟩⟩
      writeThenRead = some (seen, s) ∧ s.Flushed ∧
    (dsmDestroyContext s).store = flatAfter (fun _ => zeroPage) (writeThenRead.zip seen) := by
  obtain ⟨seen, s, heq, -, hiff, -⟩ := teardown_keeps_writes_iff (show 1 ≤ 1 by decide) (by decide)
    (show 2 < 2 ^ 32 by decide) (show (0 : Int) ≤ 3 by decide) (fun _ => zeroPage) writeThenRead
    (by simp [writeThenRead, Call.Plain])
  have htable : (Pager.run ⟨dsmContextSetSocket (dsmCreateContext 1 2) 3, ⟨fun _ => zeroPage, []⟩⟩
      writeThenRead).map (fun r => (r.2.ctx.numVirtualPages, (r.2.ctx.pageTable 0).valid,
        (r.2.ctx.pageTable 1).dirty)) = some (2, false, 0) := by decide +kernel
  simp only [heq, Option.map_some, Option.some.injEq, Prod.mk.injEq] at htable
  obtain ⟨hsize, habsent, hclean⟩ := htable
  have hflushed : s.Flushed := by
    rintro p f ⟨hp, hv, -⟩ hd
    obtain rfl | rfl : p = 0 ∨ p = 1 := by omega
    · rw [habsent] at hv
      cases hv
    · exact absurd hclean hd
  exact ⟨seen, s, heq, hflushed, hiff.mpr hflushed⟩

/-- **A lost write.** The program writes page `0` and destroys the context; the server has never
heard of it. -/
theorem write_lost_at_teardown : ∃ s,
    Pager.run ⟨dsmContextSetSocket (dsmCreateContext 1 2) 3, ⟨fun _ => zeroPage, []⟩⟩
      [.access 0 1 (fun _ => Page.fill 7) ⟨.ok, .ok, true⟩] = some ([some zeroPage], s) ∧
    (dsmDestroyContext s).store 0 = Page.fill 0 ∧
    flatAfter (fun _ => zeroPage)
      [(.access 0 1 (fun _ => Page.fill 7) ⟨.ok, .ok, true⟩, some zeroPage)] 0 = Page.fill 7 ∧
    Page.fill 0 ≠ Page.fill 7 :=
  ⟨_, rfl, rfl, rfl, Page.fill_ne (by decide)⟩

end Dsm.Paging
