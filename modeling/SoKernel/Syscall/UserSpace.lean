import SoKernel.Memory.Paging

/-!
# User address spaces

This module models the part of {lit}`syscall/syscall.c` that builds, copies and
releases user address spaces.  Every access to a directory, a table or a page goes
through the temporary window.

A function of the source that returns a negative code on failure returns
{lit}`false` or {lit}`none` here; the memory it leaves behind is returned in both
cases.
-/

namespace SoKernel

namespace Memory

/-- {lit}`alloc_zeroed_frame`. -/
def allocZeroedFrame (m : Memory) : Nat × Memory :=
  let (frame, m) := m.pfaAlloc
  if frame = 0 then (0, m) else (frame, m.zeroPage frame)

/-- {lit}`map_user_page`. -/
def mapUserPage (m : Memory) (pdtPhys vaddr framePhys : Nat) : Bool × Memory :=
  let pdIndex := vaddr / 2 ^ 22
  let ptIndex := vaddr / 2 ^ 12 % 1024
  let (pde, m) := m.peekWord pdtPhys pdIndex
  if present pde = false then
    let (ptPhys, m) := m.allocZeroedFrame
    if ptPhys = 0 then (false, m)
    else
      let m := m.pokeWord pdtPhys pdIndex (ptPhys ||| 7)
      (true, m.pokeWord ptPhys ptIndex (frameBits framePhys ||| 7))
  else (true, m.pokeWord (frameBits pde) ptIndex (frameBits framePhys ||| 7))

/-- {lit}`create_user_pdt`. -/
def createUserPdt (m : Memory) : Nat × Memory :=
  let (pdtPhys, m) := m.allocZeroedFrame
  if pdtPhys = 0 then (0, m) else (pdtPhys, m.pokeWord pdtPhys 768 (m.pageDirectory 768))

/-! ## Release -/

/-- Release every page a table maps, with the window open on the table. -/
def destroyTable (m : Memory) (p : WindowPtr) : Memory :=
  forRange 1024 (fun ptIndex m =>
    let (pte, m) := m.readWord p ptIndex
    if present pte then
      let (pte, m) := m.readWord p ptIndex
      m.pfaFree (frameBits pte)
    else m) m

/-- One pass of the loop of {lit}`destroy_user_space`. -/
def destroyEntry (pdtPhys pdIndex : Nat) (m : Memory) : Memory :=
  if pdIndex = 768 then m
  else
    let (pde, m) := m.peekWord pdtPhys pdIndex
    if present pde = false then m
    else
      let ptPhys := frameBits pde
      let (p, m) := m.pagingTempMap ptPhys
      let m := (m.destroyTable p).pagingTempUnmap
      let m := m.pfaFree ptPhys
      m.pokeWord pdtPhys pdIndex 0

/-- {lit}`destroy_user_space`. -/
def destroyUserSpace (m : Memory) (pdtPhys : Nat) : Memory :=
  if pdtPhys = 0 then m
  else
    let m := { m with destroyedLoaded := m.destroyedLoaded || decide (pdtPhys = m.cr3) }
    (forRange 1024 (destroyEntry pdtPhys) m).pfaFree pdtPhys

/-! ## Copying -/

/-- The loop of {lit}`copy_frame_page`: 128 bytes at a time through a bounce buffer. -/
def copyChunks (m : Memory) (srcFramePhys dstFramePhys : Nat) : Memory :=
  (whileLoop 4096 (fun s : Nat × Memory => decide (s.1 < 4096)) (fun (copied, m) =>
    let chunk := min (4096 - copied) 128
    let (bounce, m) := m.loadBytes srcFramePhys copied chunk
    (copied + chunk, m.storeBytes dstFramePhys copied chunk bounce)) (0, m)).2

/-- {lit}`copy_frame_page`. -/
def copyFramePage (m : Memory) (srcFramePhys dstFramePhys : Nat) : Int × Memory :=
  (0, m.copyChunks srcFramePhys dstFramePhys)

/-- One pass of the inner loop of {lit}`clone_user_space`. -/
def clonePage (childPdtPhys childPtPhys parentPtPhys ptIndex : Nat) (m : Memory) :
    Except Memory Memory :=
  let (parentPte, m) := m.peekWord parentPtPhys ptIndex
  if present parentPte = false then .ok m
  else
    let (childFrame, m) := m.pfaAlloc
    if childFrame = 0 then .error (m.destroyUserSpace childPdtPhys)
    else
      let (code, m) := m.copyFramePage (frameBits parentPte) childFrame
      if code < 0 then .error ((m.pfaFree childFrame).destroyUserSpace childPdtPhys)
      else .ok (m.pokeWord childPtPhys ptIndex (childFrame ||| flagBits parentPte))

/-- One pass of the outer loop of {lit}`clone_user_space`. -/
def cloneEntry (parentPdtPhys childPdtPhys pdIndex : Nat) (m : Memory) : Except Memory Memory :=
  let (parentPde, m) := m.peekWord parentPdtPhys pdIndex
  if present parentPde = false then .ok m
  else
    let (childPtPhys, m) := m.allocZeroedFrame
    if childPtPhys = 0 then .error (m.destroyUserSpace childPdtPhys)
    else
      let m := m.pokeWord childPdtPhys pdIndex (childPtPhys ||| flagBits parentPde)
      tryRange 1024 (clonePage childPdtPhys childPtPhys (frameBits parentPde)) m

/-- {lit}`clone_user_space`; 0 on failure. -/
def cloneUserSpace (m : Memory) (parentPdtPhys : Nat) : Nat × Memory :=
  let (childPdtPhys, m) := m.createUserPdt
  if childPdtPhys = 0 then (0, m)
  else
    match tryRange 768 (cloneEntry parentPdtPhys childPdtPhys) m with
    | .error m => (0, m)
    | .ok m => (childPdtPhys, m)

/-! ## Images -/

/-- The loop of {lit}`copy_phys_region_to_frame`: the source may straddle page boundaries. -/
def copyRegion (m : Memory) (dstFramePhys srcPhysStart size : Nat) : Memory :=
  (whileLoop size (fun s : Nat × Memory => decide (s.1 < size)) (fun (copied, m) =>
    let srcPhys := u32 (srcPhysStart + copied)
    let srcPage := frameBits srcPhys
    let srcOff := flagBits srcPhys
    let chunk := min (min (size - copied) (4096 - srcOff)) 128
    let (bounce, m) := m.loadBytes srcPage srcOff chunk
    (copied + chunk, m.storeBytes dstFramePhys copied chunk bounce)) (0, m)).2

/-- {lit}`copy_phys_region_to_frame`. -/
def copyPhysRegionToFrame (m : Memory) (dstFramePhys srcPhysStart size : Nat) : Int × Memory :=
  if size > 4096 then (-1, m)
  else (0, (m.zeroPage dstFramePhys).copyRegion dstFramePhys srcPhysStart size)

/-- Clear a stack page and write {lit}`argc` and {lit}`argv` at its top, in one opening of
the window. -/
def clearStack (m : Memory) (stackFrame : Nat) : Memory :=
  let (p, m) := m.pagingTempMap stackFrame
  let m := forRange 4096 (fun i m => m.writeByte p i 0) m
  let m := m.writeWord p ((4096 - 8) / 4) 0
  let m := m.writeWord p ((4096 - 8) / 4 + 1) 0
  m.pagingTempUnmap

/-- {lit}`setup_user_stack`: the initial stack pointer. -/
def setupUserStack (m : Memory) (pdtPhys : Nat) : Option Nat × Memory :=
  let (stackFrame, m) := m.pfaAlloc
  if stackFrame = 0 then (none, m)
  else
    let (mapped, m) := m.mapUserPage pdtPhys 0xBFFFF000 stackFrame
    if mapped = false then (none, m.pfaFree stackFrame)
    else (some (0xC0000000 - 8), m.clearStack stackFrame)

/-- What {lit}`build_new_image` returns through its pointers. -/
structure Image where
  pdt : Nat
  entry : Nat
  userEsp : Nat

/-- One pass of the loop of {lit}`build_new_image`; the state has the bytes loaded so far. -/
def loadPage (pdtPhys modStart moduleSize : Nat) (s : Nat × Memory) :
    Except Memory (Nat × Memory) :=
  let (loaded, m) := s
  let (frame, m) := m.pfaAlloc
  let copySize := min 4096 (moduleSize - loaded)
  if frame = 0 then .error (m.destroyUserSpace pdtPhys)
  else
    let (mapped, m) := m.mapUserPage pdtPhys loaded frame
    if mapped = false then .error ((m.pfaFree frame).destroyUserSpace pdtPhys)
    else
      let (code, m) := m.copyPhysRegionToFrame frame (u32 (modStart + loaded)) copySize
      if code < 0 then .error (m.destroyUserSpace pdtPhys) else .ok (loaded + copySize, m)

/-- {lit}`build_new_image`. -/
def buildNewImage (m : Memory) (modStart modEnd : Nat) : Option Image × Memory :=
  if modEnd ≤ modStart then (none, m)
  else
    let (pdtPhys, m) := m.createUserPdt
    if pdtPhys = 0 then (none, m)
    else
      let moduleSize := modEnd - modStart
      match tryWhile moduleSize (fun s => decide (s.1 < moduleSize))
          (loadPage pdtPhys modStart moduleSize) (0, m) with
      | .error m => (none, m)
      | .ok (_, m) =>
          let (userEsp, m) := m.setupUserStack pdtPhys
          match userEsp with
          | none => (none, m.destroyUserSpace pdtPhys)
          | some esp => (some ⟨pdtPhys, 0, esp⟩, m)

end Memory

end SoKernel
