import EMaster.C3Driver
import EMaster.ModbusDriver

/-!
# The buffers of the native drivers

Whatever the transport answers and whatever the callers ask for, both drivers stay inside
their buffers. This holds during a call as well as after it.
-/

set_option autoImplicit false

namespace EMaster.NativeDrivers
open Transport

/-- All accesses of any sequence of calls are inside the buffers, over any transport. -/
theorem accesses_inside {σ : Type} (T : VTable σ) (link : σ) :
    (∀ calls, Inside ModbusDriver.size
      (ModbusDriver.session T calls ⟨ModbusDriver.Driver.zero,link,[]⟩).2) ∧
    (∀ calls, Inside C3Driver.size
      (C3Driver.session T calls ⟨C3Driver.Driver.zero,link,[]⟩).2) := by
  constructor
  · intro calls
    exact (ModbusDriver.session_inside T calls _ ⟨by simp [Inside],trivial⟩).1
  · intro calls
    have hs : C3Driver.Terminated C3Driver.Driver.zero := by
      unfold C3Driver.Terminated
      decide
    exact (C3Driver.session_inside T calls _ ⟨by simp [Inside],hs⟩).1

end EMaster.NativeDrivers
