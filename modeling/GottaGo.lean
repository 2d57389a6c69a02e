import GottaGo.Accounts.Reauthentication
import GottaGo.App.Bystanders
import GottaGo.Invites.Traced
import GottaGo.Membership.Growth
import GottaGo.Membership.Removal
import GottaGo.Membership.ProfileEdits
import GottaGo.Membership.ListEdits
import GottaGo.Accounts.Deletion
import GottaGo.Visits.Moves
import GottaGo.Visits.Selected
import GottaGo.Visits.Live
import GottaGo.Visits.NewList
import GottaGo.Visits.Order
import GottaGo.Visits.Failure
import GottaGo.Explore.Chip
import GottaGo.Explore.Remembering
import GottaGo.Explore.Replies
import GottaGo.Explore.Sought
import GottaGo.Home.Missing
import GottaGo.Places.Batch
import GottaGo.Places.Details
import GottaGo.Places.Hours
import GottaGo.Places.Labels
import GottaGo.Places.Shown
import GottaGo.Places.Ticks
import GottaGo.Places.Wheel
import GottaGo.Session.Profile
import GottaGo.Session.Echo
import GottaGo.Usernames.Sequential
import GottaGo.Usernames.Concurrent
import GottaGo.Usernames.Rename
import GottaGo.Usernames.Typed
import GottaGo.Invites.Send
import GottaGo.Invites.Answers
import GottaGo.Invites.Inbox
import GottaGo.Invites.Dismissal
import GottaGo.Recovery.Failure
import GottaGo.Requests.Latest
import GottaGo.Requests.Loading
import GottaGo.Requests.Reported
import GottaGo.Requests.Submitting
