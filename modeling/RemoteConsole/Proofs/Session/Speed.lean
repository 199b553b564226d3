import RemoteConsole.Proofs.Session.Requests

/-!
# The game speed of a session

Time passes on the clock, but its speed is only changed by setting it, and there
the same speeds are taken as in a configuration. So whatever a session is asked
for, its speed is one that its configuration might have had.
-/

namespace RemoteConsole

open RemoteConsole.Action

variable {σ : Type} {Q : Double → Prop}

namespace Console

def Paced (Q : Double → Prop) (c : Console σ) : Prop := Q c.clock.gameSpeed

theorem steady_paced : Steady (Paced (σ := σ) Q) where
  send := preserves_send fun _ h => h
  registry _ h := h
  sendBatch _ := preserves_zoom _ fun _ _ h => h
  batch _ h := h
  clock hspeed h := by
    rw [Paced, hspeed]
    exact h

theorem lasting_paced (hQ : ∀ speed, Config.isSpeed speed = true → Q speed) : Lasting (Paced (σ := σ) Q) where
  toSteady := steady_paced
  speed hspeed _ := hQ _ hspeed
  rest _ _ _ _ h := h

end Console

theorem Config.isSpeed_of_validate {config : Config} (h : config.validate = .ok ()) :
    Config.isSpeed config.session.gameSpeed = true := by
  unfold validate at h
  split at h
  · cases h
  split at h
  · cases h
  next hspeed => simpa using hspeed

/-- **The speed of a session.** Opened with a configuration that is valid, a session has a positive and finite speed
after whatever it was asked for. -/
theorem Session.isSpeed_after {config : Config} (hvalid : config.validate = .ok ()) (files : FileTree)
    (registry : Registry) (wire : Wire σ) (hooks : Hooks) (requests : List Request) :
    Config.isSpeed ((new (.new config files registry wire) hooks).after requests).console.clock.gameSpeed = true := by
  have hlasting : Console.Lasting (Console.Paced (σ := σ) (Config.isSpeed · = true)) :=
    Console.lasting_paced fun _ h => h
  have hstart : (new (.new config files registry wire) hooks).console.Paced (Config.isSpeed · = true) :=
    Config.isSpeed_of_validate hvalid
  exact hlasting.after (preserves_zoom _ fun _ _ h => h) hstart requests

end RemoteConsole
