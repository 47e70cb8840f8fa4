import Chip8.Instruction.Mnemonic
import Chip8.Main
import Chip8.Proofs.Machine.Bench
import Chip8.Proofs.Machine.Calls
import Chip8.Proofs.Machine.Halt
import Chip8.Proofs.Machine.Marks
import Chip8.Proofs.Machine.Reserved
import Chip8.Proofs.Play.Ending
import Chip8.Proofs.Play.Failures
import Chip8.Proofs.Play.History
import Chip8.Proofs.Play.Keys
import Chip8.Proofs.Play.Refinement
import Chip8.Proofs.Play.Schedule
import Chip8.Proofs.Play.Walk
import Chip8.Proofs.Storage.Desk
import Chip8.Proofs.Storage.Safety
import Chip8.Proofs.Storage.Saves
import Chip8.Proofs.Machine.Index
import Chip8.Proofs.Machine.Sprite
import Chip8.Proofs.Storage.Draws
import Chip8.Proofs.Machine.Arithmetic
import Chip8.Proofs.Machine.Overlay
import Chip8.Proofs.Machine.Stores
import Chip8.Proofs.Machine.Interleaving
import Chip8.Proofs.Play.Rates
import Chip8.Proofs.Play.Limit
import Chip8.Proofs.Play.Pictures
import Chip8.Proofs.Play.Keyboard
import Chip8.Proofs.Play.Onsets
import Chip8.Proofs.Play.StatusLine
import Chip8.Proofs.Machine.Waiting
import Chip8.Proofs.Storage.Staging
import Chip8.Proofs.Storage.SettingsFile
import Chip8.Proofs.Play.Selection
import Chip8.Proofs.Play.Canvas
import Chip8.Proofs.Machine.Loading
