import Telecran.Model.Board
import Telecran.Proofs.Scene
import Telecran.Soundness.Framebuffer
import Telecran.Proofs.Play
import Telecran.Model.Video
import Telecran.Proofs.Walls
import Telecran.Soundness.Collision
import Telecran.Soundness.ScanOut
import Telecran.Proofs.Nudge
import Telecran.Soundness.Winnable
import Telecran.Model.Drawing
import Telecran.Soundness.Erase
import Telecran.Soundness.Quadrature
import Telecran.Bus.I2c
import Telecran.Model.Adxl
import Telecran.Proofs.AdxlOps
import Telecran.Proofs.AdxlInvariants
import Telecran.Proofs.AdxlTicks
import Telecran.Soundness.Framing
import Telecran.Proofs.AdxlRead
import Telecran.Soundness.FailedRead
import Telecran.Soundness.BurstRead
import Telecran.Soundness.Tunnelling
import Telecran.Soundness.Placement
import Telecran.Proofs.Transitions
import Telecran.Soundness.Contact
import Telecran.Signal.Transfer
import Telecran.Soundness.Tilt
import Telecran.Soundness.VideoTiming
import Telecran.Soundness.Cursor
import Telecran.Soundness.Progress
import Telecran.Soundness.LevelRange
import Telecran.Bus.Transcript
import Telecran.Proofs.AdxlTranscript
import Telecran.Proofs.AdxlPlan
import Telecran.Soundness.Configured
import Telecran.Model.AdxlTest
import Telecran.Signal.Envelope
import Telecran.Soundness.Generator
import Telecran.Soundness.LowPass
import Telecran.Model.RightPb
import Telecran.Signal.Debounce
import Telecran.Soundness.Debounce
import Telecran.Model.I2cMaster
import Telecran.Proofs.MasterBytes
import Telecran.Soundness.WriteOnce
import Telecran.Soundness.MasterFraming
import Telecran.Proofs.AdxlRetry
import Telecran.Soundness.ReadRequest
import Telecran.Machine.RangeCheck
import Telecran.Model.Checked
import Telecran.Soundness.Ranges
import Telecran.Bus.Registers
import Telecran.Model.HdmiConfig
import Telecran.Proofs.HdmiPhases
import Telecran.Proofs.HdmiWriter
import Telecran.Proofs.HdmiAccount
import Telecran.Soundness.HdmiConfigured
import Telecran.Bus.Target
import Telecran.Proofs.AdxlCalls
import Telecran.Proofs.AdxlFrames
import Telecran.Soundness.AdxlSamples
import Telecran.Machine.Refinement
import Telecran.Spec.Game
import Telecran.Model.AGame
import Telecran.Proofs.GamePace
import Telecran.Soundness.GamePlay
import Telecran.Soundness.DeviceGame
import Telecran.Soundness.Interlock
import Telecran.Signal.XorLinear
import Telecran.Soundness.Seeds
import Telecran.Signal.Decay
import Telecran.Model.TestDesign
import Telecran.Soundness.TestTracks
import Telecran.Soundness.ReadByte
import Telecran.Soundness.Rest
import Telecran.Machine.Walk
import Telecran.Soundness.ScreenGame
import Telecran.Soundness.Strokes
