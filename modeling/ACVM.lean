import ACVM.EventSystem
import ACVM.Supervisor
import ACVM.Tokens
import ACVM.OptionString
import ACVM.Foundation
import ACVM.FileDropView
import ACVM.ViewController
import ACVM.World
import ACVM.Steps
import ACVM.Interface
import ACVM.Supervision
import ACVM.OneVM
import ACVM.FailedLaunch
import ACVM.VariableStore
import ACVM.Drives
import ACVM.ExtraArguments
import ACVM.Sessions
import ACVM.Frozen
import ACVM.Machine
import ACVM.Footprint
import ACVM.Ledger
import ACVM.Unseen
import ACVM.CommandLine
import ACVM.Display
import ACVM.Progress
import ACVM.Relaunch
import ACVM.Window
import ACVM.Inputs
